import Predix.Delivery.Outbox
import Predix.Ownership.Lease

namespace Predix

open Data

/-! Fencing: an engine stamps its envelopes with the token it drew, and the
database worker compares the stamp with the counter. -/

structure StampedEnvelope extends Envelope where
  fencingToken : Nat
  deriving DecidableEq, Repr

inductive FencingDecision where
  | fencingAccept
  | fencingStale
  deriving DecidableEq, Repr

/-- Token zero is that of an envelope older than fencing. -/
def fencingDecisionForToken (token current : Nat) : FencingDecision :=
  if token = 0 then .fencingAccept
  else if token < current then .fencingStale
  else .fencingAccept

def fencingDecision (counter : Option Nat) (envelope : StampedEnvelope) :
    FencingDecision :=
  match counter with
  | none => .fencingAccept
  | some current => fencingDecisionForToken envelope.fencingToken current

/-- What the worker meets: whether the counter can be read, whether the handler
of the event succeeds, and whether the acknowledgement arrives. -/
structure WorkerOutcome where
  read : Bool
  handled : Bool
  acked : Bool
  deriving DecidableEq, Repr

structure Verdict where
  decision : FencingDecision
  applied : Bool
  acknowledged : Bool
  deriving DecidableEq, Repr

/-- `handleEnvelope` and the acknowledgement after it. A stale envelope is
acknowledged without being applied; after an error the entry stays pending. -/
def handleEnvelope (counter : Option Nat) (envelope : StampedEnvelope)
    (outcome : WorkerOutcome) : Option Verdict :=
  if outcome.read then
    match fencingDecision counter envelope with
    | .fencingStale => some ⟨.fencingStale, false, outcome.acked⟩
    | .fencingAccept =>
        some ⟨.fencingAccept, outcome.handled,
          outcome.handled && outcome.acked⟩
  else
    none

/-! The outbox of `Delivery.Outbox`, for lines of any kind. -/

section Lines

variable {α : Type}

def EmitOutcome.journaled (outcome : EmitOutcome) (broadcast : Bool)
    (journal : List α) (line : α) : List α :=
  match outcome.append with
  | .failed => journal
  | .unsynced => journal ++ [line]
  | .synced => if outcome.clears broadcast then [] else journal ++ [line]

def EmitOutcome.streamed (outcome : EmitOutcome) (line : α) : List α :=
  if outcome.append = .synced ∧ outcome.publication.added = true then [line]
  else []

def republished (broadcast : α → Bool) :
    List α → List Publication → List α × Bool
  | [], _ => ([], true)
  | _ :: _, [] => ([], false)
  | line :: lines, publication :: publications =>
      if publication.added then
        if !broadcast line || publication.published then
          let (rest, accepted) := republished broadcast lines publications
          (line :: rest, accepted)
        else
          ([line], false)
      else
        ([], false)

def RecoverOutcome.streamed (outcome : RecoverOutcome) (broadcast : α → Bool)
    (journal : List α) : List α :=
  if outcome.readable then
    (republished broadcast journal outcome.publications).1
  else
    []

def RecoverOutcome.journaled (outcome : RecoverOutcome)
    (broadcast : α → Bool) (journal : List α) : List α :=
  if outcome.readable ∧
      (republished broadcast journal outcome.publications).2 = true ∧
      outcome.truncated = true then
    []
  else
    journal

theorem emitEventP_journal (outbox : Outbox) (envelope : Envelope)
    (broadcast : Bool) (outcome : EmitOutcome) :
    (outbox.emitEventP envelope broadcast outcome).1.journal =
      outcome.journaled broadcast outbox.journal envelope := by
  obtain ⟨append, ⟨added, published⟩, truncated⟩ := outcome
  cases append <;> cases added <;> cases published <;> cases truncated <;>
    cases broadcast <;> rfl

theorem emitEventP_stream (outbox : Outbox) (envelope : Envelope)
    (broadcast : Bool) (outcome : EmitOutcome) :
    (outbox.emitEventP envelope broadcast outcome).1.stream =
      outbox.stream ++ outcome.streamed envelope := by
  obtain ⟨append, ⟨added, published⟩, truncated⟩ := outcome
  cases append <;> cases added <;> cases published <;> cases truncated <;>
    cases broadcast <;>
    simp [Outbox.emitEventP, EmitOutcome.streamed, publishEnvelope,
      Outbox.reset]

private theorem republishAll_eq (stream lines : List Envelope)
    (publications : List Publication) :
    republishAll stream lines publications =
      (stream ++
        (republished (·.event.broadcast) lines publications).1,
        (republished (·.event.broadcast) lines publications).2) := by
  induction lines generalizing stream publications with
  | nil => simp [republishAll, republished]
  | cons line lines induction =>
      cases publications with
      | nil => simp [republishAll, republished]
      | cons publication publications =>
          obtain ⟨added, published⟩ := publication
          cases added with
          | false => simp [republishAll, publishEnvelope, republished]
          | true =>
              simp only [republishAll, publishEnvelope, republished, if_true]
              split
              · rw [induction]
                simp
              · rfl

theorem recover_lines (outbox : Outbox) (outcome : RecoverOutcome) :
    (outbox.recover outcome).journal =
        outcome.journaled (·.event.broadcast) outbox.journal ∧
      (outbox.recover outcome).stream = outbox.stream ++
        outcome.streamed (·.event.broadcast) outbox.journal := by
  simp only [Outbox.recover, republishAll_eq, RecoverOutcome.journaled,
    RecoverOutcome.streamed]
  cases outcome.readable with
  | false => simp
  | true =>
      cases (republished (·.event.broadcast) outbox.journal
          outcome.publications).2 with
      | false => simp
      | true => cases outcome.truncated <;> simp [Outbox.reset]

private theorem mem_republished {broadcast : α → Bool} {lines : List α}
    {publications : List Publication} {line : α}
    (member : line ∈ (republished broadcast lines publications).1) :
    line ∈ lines := by
  induction lines generalizing publications with
  | nil => exact member
  | cons first lines induction =>
      cases publications with
      | nil => simp [republished] at member
      | cons publication publications =>
          simp only [republished] at member
          split at member
          · split at member
            · rcases List.mem_cons.mp member with rfl | later
              · exact List.mem_cons_self
              · exact List.mem_cons_of_mem _ (induction later)
            · rw [List.mem_singleton.mp member]
              exact List.mem_cons_self
          · contradiction

theorem mem_journaled {outcome : EmitOutcome} {broadcast : Bool}
    {journal : List α} {line other : α}
    (member : other ∈ outcome.journaled broadcast journal line) :
    other ∈ journal ∨ other = line := by
  unfold EmitOutcome.journaled at member
  split at member
  · exact .inl member
  · simpa using member
  · split at member
    · contradiction
    · simpa using member

theorem mem_streamed {outcome : EmitOutcome} {line other : α}
    (member : other ∈ outcome.streamed line) : other = line := by
  unfold EmitOutcome.streamed at member
  split at member
  · exact List.mem_singleton.mp member
  · contradiction

theorem mem_recovered {outcome : RecoverOutcome} {broadcast : α → Bool}
    {journal : List α} {line : α}
    (member : line ∈ outcome.streamed broadcast journal ∨
      line ∈ outcome.journaled broadcast journal) : line ∈ journal := by
  rcases member with streamed | kept
  · unfold RecoverOutcome.streamed at streamed
    split at streamed
    · exact mem_republished streamed
    · contradiction
  · unfold RecoverOutcome.journaled at kept
    split at kept
    · contradiction
    · exact kept

end Lines

/-! One partition: its owners, the envelopes on their way, and the worker. -/

/-- A stamped envelope, and how things stood when it was stamped: the sender's
acquisition, the counter, and whether the sender held the lease. -/
structure Sent where
  envelope : StampedEnvelope
  acquisition : Nat
  counter : Option Nat
  held : Bool
  deriving DecidableEq, Repr

/-- The sender held the lease and stamped the newest token. -/
def Sent.Legitimate (sent : Sent) : Prop :=
  sent.held = true ∧ sent.counter = some sent.envelope.fencingToken

instance (sent : Sent) : Decidable sent.Legitimate :=
  inferInstanceAs (Decidable (_ ∧ _))

/-- An entry of `events:out`, and the newest acquisition that had its token
when the entry was added. -/
structure Entry where
  sent : Sent
  fenced : Nat
  deriving DecidableEq, Repr

/-- A decision of the worker, and how often the lease had been acquired by
then. -/
structure Delivery where
  entry : Entry
  acquisitions : Nat
  verdict : Verdict
  deriving DecidableEq, Repr

structure Fencing where
  ownership : Ownership
  stamped : String → Option Sent
  journal : String → List Sent
  stream : List Entry
  deliveries : List Delivery

def Fencing.start : Fencing := ⟨.start, fun _ => none, fun _ => [], [], []⟩

inductive FencingInput where
  | ownership (input : OwnershipInput)
  /-- The token is read and the envelope built. -/
  | stamp (engine : String) (envelope : Envelope)
  /-- The rest of `emitEventP`. -/
  | publish (engine : String) (outcome : EmitOutcome)
  /-- The first thing an engine does when it is started. -/
  | recover (engine : String) (outcome : RecoverOutcome)
  | process (index : Nat) (outcome : WorkerOutcome)

namespace Fencing

/-- An engine leaves only between two commands, so it has nothing in hand. -/
def Busy (fencing : Fencing) : OwnershipInput → Prop
  | .leave engine _ => (fencing.stamped engine).isSome = true
  | _ => False

instance (fencing : Fencing) (input : OwnershipInput) :
    Decidable (fencing.Busy input) :=
  match input with
  | .leave engine _ => inferInstanceAs (Decidable
      ((fencing.stamped engine).isSome = true))
  | .start _ | .acquire _ _ | .next _ _ | .renew _ _ | .release _ _
  | .expire | .crash _ => .isFalse id

def control (fencing : Fencing) (input : OwnershipInput) : Fencing :=
  { fencing with
    ownership := fencing.ownership.step input
    stamped :=
      match input with
      | .crash engine => Function.update fencing.stamped engine none
      | _ => fencing.stamped }

def add (fencing : Fencing) (lines : List Sent) : List Entry :=
  fencing.stream ++ lines.map (⟨·, fencing.ownership.fenced⟩)

def step (fencing : Fencing) : FencingInput → Fencing
  | .ownership input =>
      if fencing.Busy input then fencing else fencing.control input
  | .stamp engine envelope =>
      match fencing.ownership.phase engine, fencing.stamped engine with
      | .owning acquisition token _, none =>
          { fencing with
            stamped := Function.update fencing.stamped engine (some
              { envelope := ⟨envelope, token⟩
                acquisition := acquisition
                counter := fencing.ownership.counter
                held := decide (fencing.ownership.lease = some engine) }) }
      | _, _ => fencing
  | .publish engine outcome =>
      match fencing.stamped engine with
      | none => fencing
      | some sent =>
          { fencing with
            stamped := Function.update fencing.stamped engine none
            journal := Function.update fencing.journal engine
              (outcome.journaled sent.envelope.event.broadcast
                (fencing.journal engine) sent)
            stream := fencing.add (outcome.streamed sent) }
  | .recover engine outcome =>
      match fencing.ownership.phase engine with
      | .down =>
          { fencing with
            journal := Function.update fencing.journal engine
              (outcome.journaled (·.envelope.event.broadcast)
                (fencing.journal engine))
            stream := fencing.add (outcome.streamed
              (·.envelope.event.broadcast) (fencing.journal engine)) }
      | _ => fencing
  | .process index outcome =>
      match fencing.stream[index]? with
      | none => fencing
      | some entry =>
          match handleEnvelope fencing.ownership.counter entry.sent.envelope
              outcome with
          | none => fencing
          | some verdict =>
              { fencing with
                deliveries := fencing.deliveries ++
                  [⟨entry, fencing.ownership.acquisitions, verdict⟩] }

def run (fencing : Fencing) (inputs : List FencingInput) : Fencing :=
  runFrom step fencing inputs

def Carries (fencing : Fencing) (sent : Sent) : Prop :=
  (∃ engine, fencing.stamped engine = some sent) ∨
    (∃ engine, sent ∈ fencing.journal engine) ∨
      ∃ entry ∈ fencing.stream, entry.sent = sent

structure Sound (fencing : Fencing) : Prop where
  numbered : fencing.ownership.Numbered
  issued : ∀ sent, fencing.Carries sent →
    fencing.ownership.Issued sent.acquisition sent.envelope.fencingToken
  floors : ∀ entry ∈ fencing.stream,
    entry.fenced = 0 ∨ entry.fenced ∈ fencing.ownership.draws

end Fencing

section Sound

variable {fencing : Fencing} {engine : String}

theorem sound_start : Fencing.start.Sound where
  numbered := numbered_start
  issued := by
    rintro sent (⟨engine, none⟩ | ⟨engine, absent⟩ | ⟨entry, absent, -⟩)
    · contradiction
    · contradiction
    · contradiction
  floors := fun entry absent => by contradiction

private theorem mem_add {lines : List Sent} {entry : Entry}
    (member : entry ∈ fencing.add lines) :
    entry ∈ fencing.stream ∨
      entry.sent ∈ lines ∧ entry.fenced = fencing.ownership.fenced := by
  rcases List.mem_append.mp member with old | new
  · exact .inl old
  · obtain ⟨sent, isLine, rfl⟩ := List.mem_map.mp new
    exact .inr ⟨isLine, rfl⟩

theorem stamped_update {stamped : String → Option Sent} {other : String}
    {now : Option Sent} {sent : Sent}
    (held : Function.update stamped engine now other = some sent) :
    now = some sent ∨ stamped other = some sent := by
  rw [Function.update_apply] at held
  split at held
  · exact .inl held
  · exact .inr held

private theorem journal_update {journal : String → List Sent} {other : String}
    {now : List Sent} {sent : Sent}
    (held : sent ∈ Function.update journal engine now other) :
    sent ∈ now ∨ sent ∈ journal other := by
  rw [Function.update_apply] at held
  split at held
  · exact .inl held
  · exact .inr held

private theorem sound_control (sound : fencing.Sound) (input : OwnershipInput) :
    (fencing.control input).Sound where
  numbered := numbered_step sound.numbered input
  issued := by
    intro sent carried
    apply issued_step
    apply sound.issued
    rcases carried with ⟨engine, inHand⟩ | elsewhere
    · refine .inl ⟨engine, ?_⟩
      unfold Fencing.control at inHand
      split at inHand
      · rcases stamped_update inHand with none | before
        · contradiction
        · exact before
      · exact inHand
    · exact .inr elsewhere
  floors := by
    intro entry member
    rcases sound.floors entry member with none | drawn
    · exact .inl none
    · exact .inr ((draws_step fencing.ownership input).subset drawn)

private theorem sound_passed (sound : fencing.Sound)
    {stamped : String → Option Sent}
    {journal : String → List Sent} {lines : List Sent}
    (inHand : ∀ {engine sent}, stamped engine = some sent →
      fencing.Carries sent)
    (journaled : ∀ {engine sent}, sent ∈ journal engine →
      fencing.Carries sent)
    (streamed : ∀ {sent}, sent ∈ lines → fencing.Carries sent) :
    ({ fencing with
        stamped := stamped
        journal := journal
        stream := fencing.add lines } : Fencing).Sound where
  numbered := sound.numbered
  issued := by
    rintro sent (⟨engine, held⟩ | ⟨engine, written⟩ | ⟨entry, added, rfl⟩)
    · exact sound.issued sent (inHand held)
    · exact sound.issued sent (journaled written)
    · apply sound.issued
      rcases mem_add added with old | ⟨new, -⟩
      · exact .inr (.inr ⟨entry, old, rfl⟩)
      · exact streamed new
  floors := by
    intro entry added
    rcases mem_add added with old | ⟨-, now⟩
    · exact sound.floors entry old
    · rw [now]
      exact sound.numbered.fenced

theorem sound_step (sound : fencing.Sound) (input : FencingInput) :
    (fencing.step input).Sound := by
  cases input with
  | ownership input =>
      simp only [Fencing.step]
      split
      · exact sound
      · exact sound_control sound input
  | stamp engine envelope =>
      simp only [Fencing.step]
      split
      · rename_i acquisition token canceled owning _
        refine ⟨sound.numbered, ?_, sound.floors⟩
        rintro sent (⟨other, held⟩ | elsewhere)
        · rcases stamped_update held with new | before
          · cases new
            exact sound.numbered.owning owning
          · exact sound.issued sent (.inl ⟨other, before⟩)
        · exact sound.issued sent (.inr elsewhere)
      · exact sound
  | publish engine outcome =>
      simp only [Fencing.step]
      split
      · exact sound
      · rename_i sent inHand
        have mine : fencing.Carries sent := .inl ⟨engine, inHand⟩
        refine sound_passed sound ?_ ?_ ?_
        · intro other found held
          rcases stamped_update held with none | before
          · contradiction
          · exact .inl ⟨other, before⟩
        · intro other found written
          rcases journal_update written with now | before
          · rcases mem_journaled now with before | rfl
            · exact .inr (.inl ⟨engine, before⟩)
            · exact mine
          · exact .inr (.inl ⟨other, before⟩)
        · intro found added
          rw [mem_streamed added]
          exact mine
  | recover engine outcome =>
      simp only [Fencing.step]
      split
      · refine sound_passed sound (fun held => .inl ⟨_, held⟩) ?_ ?_
        · intro other found written
          rcases journal_update written with kept | before
          · exact .inr (.inl ⟨engine, mem_recovered (.inr kept)⟩)
          · exact .inr (.inl ⟨other, before⟩)
        · intro found added
          exact .inr (.inl ⟨engine, mem_recovered (.inl added)⟩)
      · exact sound
  | process index outcome =>
      simp only [Fencing.step]
      split
      · exact sound
      · split
        · exact sound
        · exact ⟨sound.numbered, sound.issued, sound.floors⟩

end Sound

/-! The decision. -/

theorem handleEnvelope_spec {counter : Option Nat}
    {envelope : StampedEnvelope} {outcome : WorkerOutcome} {verdict : Verdict}
    (handled : handleEnvelope counter envelope outcome = some verdict) :
    verdict.decision = fencingDecision counter envelope ∧
      (verdict.decision = .fencingAccept → verdict.acknowledged = true →
        verdict.applied = true) := by
  unfold handleEnvelope at handled
  split at handled
  · split at handled
    · rename_i stale
      cases handled
      exact ⟨stale.symm, by simp⟩
    · rename_i accepted
      cases handled
      exact ⟨accepted.symm, fun _ acknowledged => by
        simpa using (Bool.and_eq_true_iff.mp acknowledged).1⟩
  · contradiction

private theorem handleEnvelope_isSome (counter : Option Nat)
    (envelope : StampedEnvelope) (outcome : WorkerOutcome) :
    (handleEnvelope counter envelope outcome).isSome = outcome.read := by
  unfold handleEnvelope
  cases outcome.read with
  | false => rfl
  | true => cases fencingDecision counter envelope <;> rfl

inductive Judged (fencing : Fencing) : FencingInput → List Delivery → Prop
  | nothing (input : FencingInput)
      (unread : ∀ index outcome, input = .process index outcome →
        ∀ entry ∈ fencing.stream[index]?, outcome.read = false) :
      Judged fencing input fencing.deliveries
  | verdict (index : Nat) (outcome : WorkerOutcome) (entry : Entry)
      (verdict : Verdict) (member : entry ∈ fencing.stream[index]?)
      (read : outcome.read = true)
      (decided : verdict.decision =
        fencingDecision fencing.ownership.counter entry.sent.envelope)
      (applied : verdict.decision = .fencingAccept →
        verdict.acknowledged = true → verdict.applied = true) :
      Judged fencing (.process index outcome)
        (fencing.deliveries ++
          [⟨entry, fencing.ownership.acquisitions, verdict⟩])

theorem step_judged (fencing : Fencing) (input : FencingInput) :
    Judged fencing input (fencing.step input).deliveries := by
  have unconcerned : ∀ {after : Fencing},
      after.deliveries = fencing.deliveries →
        (∀ index outcome, input ≠ .process index outcome) →
          Judged fencing input after.deliveries := by
    intro after same other
    rw [same]
    exact .nothing input fun index outcome is =>
      absurd is (other index outcome)
  cases input with
  | ownership input =>
      refine unconcerned ?_ (by simp)
      simp only [Fencing.step]
      split <;> rfl
  | stamp engine envelope =>
      refine unconcerned ?_ (by simp)
      simp only [Fencing.step]
      split <;> rfl
  | publish engine outcome =>
      refine unconcerned ?_ (by simp)
      simp only [Fencing.step]
      split <;> rfl
  | recover engine outcome =>
      refine unconcerned ?_ (by simp)
      simp only [Fencing.step]
      split <;> rfl
  | process index outcome =>
      simp only [Fencing.step]
      split
      · rename_i absent
        apply Judged.nothing
        intro _ _ same entry found
        cases same
        rw [absent] at found
        contradiction
      · rename_i entry found
        have read := handleEnvelope_isSome fencing.ownership.counter
          entry.sent.envelope outcome
        split
        · rename_i undecided
          apply Judged.nothing
          intro _ _ same _ _
          cases same
          rw [undecided] at read
          exact read.symm
        · rename_i verdict handled
          rw [handled] at read
          obtain ⟨decided, applied⟩ := handleEnvelope_spec handled
          exact .verdict index outcome entry verdict found read.symm decided
            applied

/-- An envelope that bears a token is accepted as long as no newer token has
been drawn. -/
theorem decision_of_issued {ownership : Ownership}
    (numbered : ownership.Numbered) {acquisition : Nat}
    {envelope : StampedEnvelope}
    (issued : ownership.Issued acquisition envelope.fencingToken) :
    fencingDecision ownership.counter envelope =
      if envelope.fencingToken < ownership.draws.length then .fencingStale
      else .fencingAccept := by
  obtain ⟨index, token, drew⟩ := issued
  obtain ⟨inside, -⟩ := List.getElem?_eq_some_iff.mp drew
  have some : ownership.draws ≠ [] := List.ne_nil_of_length_pos (by omega)
  simp only [fencingDecision, numbered.counter, if_neg some,
    fencingDecisionForToken]
  rw [if_neg (by omega)]

/-! Legitimate envelopes. -/

/-- No legitimate envelope has been found stale, or acknowledged without being
applied. -/
def Fencing.KeepsLegitimate (fencing : Fencing) : Prop :=
  ∀ delivery ∈ fencing.deliveries, delivery.entry.sent.Legitimate →
    delivery.verdict.decision = .fencingAccept ∧
      (delivery.verdict.acknowledged = true →
        delivery.verdict.applied = true)

instance (fencing : Fencing) : Decidable fencing.KeepsLegitimate :=
  inferInstanceAs (Decidable (∀ delivery ∈ fencing.deliveries, _))

/-- A legitimate envelope is processed before another token is drawn. -/
def Fencing.Timely (fencing : Fencing) : FencingInput → Prop
  | .process index outcome => ∀ entry ∈ fencing.stream[index]?,
      outcome.read = true → entry.sent.Legitimate →
        fencing.ownership.counter = entry.sent.counter
  | _ => True

private theorem accepted_iff_timely {fencing : Fencing} (sound : fencing.Sound)
    {entry : Entry} (member : entry ∈ fencing.stream)
    (legitimate : entry.sent.Legitimate) :
    fencingDecision fencing.ownership.counter entry.sent.envelope =
        .fencingAccept ↔
      fencing.ownership.counter = entry.sent.counter := by
  have issued := sound.issued entry.sent (.inr (.inr ⟨entry, member, rfl⟩))
  rw [decision_of_issued sound.numbered issued, legitimate.2,
    sound.numbered.counter]
  obtain ⟨index, token, drew⟩ := issued
  obtain ⟨inside, -⟩ := List.getElem?_eq_some_iff.mp drew
  rw [if_neg (List.ne_nil_of_length_pos (by omega))]
  split
  · rename_i older
    simp only [reduceCtorEq, false_iff, Option.some.injEq]
    omega
  · rename_i newest
    simp only [true_iff, Option.some.injEq]
    omega

private theorem keepsLegitimate_step_iff (fencing : Fencing)
    (input : FencingInput)
    (sound : fencing.Sound) :
    (fencing.step input).KeepsLegitimate ↔
      fencing.KeepsLegitimate ∧ fencing.Timely input := by
  unfold Fencing.KeepsLegitimate
  have judged := step_judged fencing input
  generalize (fencing.step input).deliveries = deliveries at judged ⊢
  cases judged with
  | nothing _ unread =>
      refine (and_iff_left ?_).symm
      cases input with
      | process index outcome =>
          intro entry found read
          rw [unread index outcome rfl entry found] at read
          contradiction
      | ownership _ => trivial
      | stamp _ _ => trivial
      | publish _ _ => trivial
      | recover _ _ => trivial
  | verdict index outcome entry verdict found read decided applied =>
      have decides := accepted_iff_timely sound (List.mem_of_getElem? found)
      rw [← decided] at decides
      rw [List.forall_mem_append, List.forall_mem_singleton]
      refine and_congr_right fun _ => ⟨?_, ?_⟩
      · intro kept other otherFound _ legitimate
        cases Option.mem_unique found otherFound
        exact (decides legitimate).mp (kept legitimate).1
      · intro timely legitimate
        have accepted := (decides legitimate).mpr
          (timely entry found read legitimate)
        exact ⟨accepted, applied accepted⟩

/-- No legitimate envelope is lost in a run exactly when each is processed
before another token is drawn. -/
theorem fencing_keepsLegitimate_iff (inputs : List FencingInput) :
    (Fencing.start.run inputs).KeepsLegitimate ↔
      Along Fencing.step Fencing.Timely Fencing.start inputs := by
  refine (runFrom_iff_along Fencing.Sound Fencing.KeepsLegitimate
    (fun _ input sound => sound_step sound input) keepsLegitimate_step_iff
    sound_start inputs).trans ?_
  refine and_iff_right ?_
  intro delivery absent
  contradiction

/-- The first engine emits under its lease. By the time the worker gets there,
the lease has expired and the second engine has drawn its token. -/
theorem turnover_dropsLegitimate :
    ¬ (Fencing.start.run
      [.ownership (.start "engine-0"),
        .ownership (.acquire "engine-0" .answered),
        .ownership (.next "engine-0" .answered),
        .stamp "engine-0" ⟨"x", .orderCanceled "o1"⟩,
        .publish "engine-0" ⟨.synced, ⟨true, true⟩, true⟩,
        .ownership .expire,
        .ownership (.start "engine-1"),
        .ownership (.acquire "engine-1" .answered),
        .ownership (.next "engine-1" .answered),
        .process 0 ⟨true, true, true⟩]).KeepsLegitimate := by
  decide

/-! Stale owners. -/

/-- Envelopes that reach the stream after a newer acquisition has its token are
never accepted, and those of the newest acquisition always are. -/
def Fencing.StopsStale (fencing : Fencing) : Prop :=
  ∀ delivery ∈ fencing.deliveries,
    (delivery.entry.sent.acquisition < delivery.entry.fenced →
      delivery.verdict.decision = .fencingStale) ∧
    (delivery.acquisitions = delivery.entry.sent.acquisition →
      delivery.verdict.decision = .fencingAccept)

instance (fencing : Fencing) : Decidable fencing.StopsStale :=
  inferInstanceAs (Decidable (∀ delivery ∈ fencing.deliveries, _))

def Fencing.DrawsInOrder (fencing : Fencing) : FencingInput → Prop
  | .ownership input => fencing.ownership.DrawsInOrder input
  | _ => True

instance (fencing : Fencing) (input : FencingInput) :
    Decidable (fencing.DrawsInOrder input) :=
  match input with
  | .ownership control => inferInstanceAs (Decidable
      (fencing.ownership.DrawsInOrder control))
  | .stamp _ _ | .publish _ _ | .recover _ _ | .process _ _ => .isTrue trivial

structure Fencing.Ordered (fencing : Fencing) : Prop where
  sound : fencing.Sound
  sorted : fencing.ownership.draws.Pairwise (· < ·)
  stopsStale : fencing.StopsStale

theorem ordered_start : Fencing.start.Ordered where
  sound := sound_start
  sorted := .nil
  stopsStale := fun delivery absent => by contradiction

private theorem decision_of_sorted {fencing : Fencing}
    (ordered : fencing.Ordered)
    {entry : Entry} (member : entry ∈ fencing.stream) :
    (entry.sent.acquisition < entry.fenced →
      fencingDecision fencing.ownership.counter entry.sent.envelope =
        .fencingStale) ∧
    (fencing.ownership.acquisitions = entry.sent.acquisition →
      fencingDecision fencing.ownership.counter entry.sent.envelope =
        .fencingAccept) := by
  obtain ⟨sound, sorted, -⟩ := ordered
  have issued := sound.issued entry.sent (.inr (.inr ⟨entry, member, rfl⟩))
  rw [decision_of_issued sound.numbered issued]
  obtain ⟨index, token, drew⟩ := issued
  obtain ⟨inside, drew⟩ := List.getElem?_eq_some_iff.mp drew
  rw [token]
  constructor
  · intro older
    rcases sound.floors entry member with none | drawn
    · omega
    obtain ⟨later, laterInside, laterDrew⟩ := List.getElem_of_mem drawn
    have before : index < later := by
      rw [← drew, ← laterDrew] at older
      exact (sorted.sortedLT.getElem_lt_getElem_iff).mp older
    rw [if_pos (by omega)]
  · intro newest
    rw [if_neg]
    intro notLast
    -- A token drawn later would belong to a later acquisition.
    have later := List.pairwise_iff_getElem.mp sorted index (index + 1) inside
      notLast (Nat.lt_succ_self index)
    have bounded := sound.numbered.drawn _ (List.getElem_mem notLast)
    omega

theorem stopsStale_step {fencing : Fencing} (ordered : fencing.Ordered)
    (input : FencingInput) : (fencing.step input).StopsStale := by
  have judged := step_judged fencing input
  unfold Fencing.StopsStale
  generalize (fencing.step input).deliveries = deliveries at judged ⊢
  cases judged with
  | nothing _ _ => exact ordered.stopsStale
  | verdict index outcome entry verdict found _ decided _ =>
      rw [List.forall_mem_append, List.forall_mem_singleton]
      refine ⟨ordered.stopsStale, ?_⟩
      rw [decided]
      exact decision_of_sorted ordered (List.mem_of_getElem? found)

theorem ownership_step (fencing : Fencing) (input : FencingInput) :
    (fencing.step input).ownership = fencing.ownership ∨
      ∃ control, input = .ownership control ∧
        (fencing.step input).ownership = fencing.ownership.step control := by
  cases input with
  | ownership control =>
      simp only [Fencing.step]
      split
      · exact .inl rfl
      · exact .inr ⟨control, rfl, rfl⟩
  | stamp engine envelope =>
      simp only [Fencing.step]
      split <;> exact .inl rfl
  | publish engine outcome =>
      simp only [Fencing.step]
      split <;> exact .inl rfl
  | recover engine outcome =>
      simp only [Fencing.step]
      split <;> exact .inl rfl
  | process index outcome =>
      simp only [Fencing.step]
      split
      · exact .inl rfl
      · split <;> exact .inl rfl

theorem ordered_step (fencing : Fencing) (input : FencingInput)
    (ordered : fencing.Ordered) (inOrder : fencing.DrawsInOrder input) :
    (fencing.step input).Ordered where
  sound := sound_step ordered.sound input
  sorted := by
    rcases ownership_step fencing input with same | ⟨control, rfl, moved⟩
    · rw [same]
      exact ordered.sorted
    · rw [moved]
      exact sorted_step ordered.sound.numbered ordered.sorted inOrder
  stopsStale := stopsStale_step ordered input

/-- If tokens are drawn in the order in which the lease was acquired, fencing
stops every stale owner and never the newest one. -/
theorem fencing_stopsStale (inputs : List FencingInput)
    (inOrder : Along Fencing.step Fencing.DrawsInOrder Fencing.start inputs) :
    (Fencing.start.run inputs).StopsStale :=
  (invariant_runFrom Fencing.Ordered ordered_step ordered_start
    inOrder).stopsStale

/-- The first owner goes on emitting after its lease has expired and the second
owner has its token. -/
def handover : List FencingInput :=
  [.ownership (.start "engine-0"),
    .ownership (.acquire "engine-0" .answered),
    .ownership (.next "engine-0" .answered),
    .ownership .expire,
    .ownership (.start "engine-1"),
    .ownership (.acquire "engine-1" .answered),
    .ownership (.next "engine-1" .answered),
    .stamp "engine-0" ⟨"x", .orderCanceled "o1"⟩,
    .publish "engine-0" ⟨.synced, ⟨true, true⟩, true⟩,
    .stamp "engine-1" ⟨"y", .orderCanceled "o2"⟩,
    .publish "engine-1" ⟨.synced, ⟨true, true⟩, true⟩,
    .process 0 ⟨true, true, true⟩,
    .process 1 ⟨true, true, true⟩]

theorem stopsStale_handover :
    (Fencing.start.run handover).deliveries.map (·.verdict.decision) =
        [.fencingStale, .fencingAccept] ∧
      (Fencing.start.run handover).StopsStale :=
  ⟨by decide, fencing_stopsStale handover (by decide)⟩

/-- The first owner acquires the lease and pauses before it draws its token.
The second owner takes over and draws; then the first one goes on. -/
theorem lateToken_passesFence :
    ¬ (Fencing.start.run
      [.ownership (.start "engine-0"),
        .ownership (.acquire "engine-0" .answered),
        .ownership .expire,
        .ownership (.start "engine-1"),
        .ownership (.acquire "engine-1" .answered),
        .ownership (.next "engine-1" .answered),
        .ownership (.next "engine-0" .answered),
        .stamp "engine-0" ⟨"x", .orderCanceled "o1"⟩,
        .publish "engine-0" ⟨.synced, ⟨true, true⟩, true⟩,
        .process 0 ⟨true, true, true⟩]).StopsStale := by
  decide

end Predix
