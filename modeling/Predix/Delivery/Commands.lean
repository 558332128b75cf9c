import Mathlib.Data.List.Nodup
import Predix.Ownership.Lease

namespace Predix

open Data

/-! The API processes that send commands to one partition: each command draws
its sequence number with INCR and is then appended with XADD. Payloads, times
and the wait for the reply are left out. -/

def maxAppendRetries : Nat := 3

/-- The three ways to send a command. A fan-out sends one command to each
partition, and goes on to the next one after its XADD. -/
inductive SendKind where
  | sendAndAwait
  | sendCommand
  | sendCommandFanout
  deriving DecidableEq, Repr

def SendKind.attempts : SendKind → Nat
  | .sendAndAwait => maxAppendRetries
  | .sendCommand => 1
  | .sendCommandFanout => 1

structure CommandEnvelope where
  commandID : String
  sequence : Nat
  deriving DecidableEq, Repr

structure Sending where
  envelope : CommandEnvelope
  attempts : Nat
  deriving DecidableEq, Repr

/-- The sequence counter of the partition, its command stream, and all that was
sent to it, by any process. -/
structure CommandLog where
  counter : Nat
  stream : List CommandEnvelope
  sendings : List Sending
  deriving DecidableEq, Repr

inductive SendAction where
  | createEnvelope (commandID : String) (kind : SendKind) (incr : Call)
  | attempt (sending : Nat) (xadd : Call)
  deriving DecidableEq, Repr

namespace CommandLog

def start : CommandLog := ⟨0, [], []⟩

/-- INCR, and the number the envelope gets: zero after an error. -/
def incr (log : CommandLog) : Call → CommandLog × Nat
  | .answered => ({ log with counter := log.counter + 1 }, log.counter + 1)
  | .unanswered => ({ log with counter := log.counter + 1 }, 0)
  | .failed => (log, 0)

def createEnvelope (log : CommandLog) (commandID : String) (kind : SendKind)
    (incr : Call) : CommandLog :=
  let (log, sequence) := log.incr incr
  { log with
    sendings := log.sendings ++ [⟨⟨commandID, sequence⟩, kind.attempts⟩] }

def appended (envelope : CommandEnvelope) : Call → List CommandEnvelope
  | .failed => []
  | _ => [envelope]

def attemptsAfter (attempts : Nat) : Call → Nat
  | .answered => 0
  | _ => attempts - 1

/-- One XADD. After an error the command is tried again, while attempts are
left; an unanswered XADD has appended it all the same. -/
def attempt (log : CommandLog) (index : Nat) (xadd : Call) : CommandLog :=
  match log.sendings[index]? with
  | none => log
  | some sending =>
      if sending.attempts = 0 then
        log
      else
        { log with
          stream := log.stream ++ appended sending.envelope xadd
          sendings := log.sendings.set index
            { sending with attempts := attemptsAfter sending.attempts xadd } }

def step (log : CommandLog) : SendAction → CommandLog
  | .createEnvelope commandID kind incr =>
      log.createEnvelope commandID kind incr
  | .attempt sending xadd => log.attempt sending xadd

def run (log : CommandLog) (actions : List SendAction) : CommandLog :=
  runFrom step log actions

/-- Entries of different commands are numbered in stream order. -/
def InSequence (log : CommandLog) : Prop :=
  log.stream.Pairwise fun earlier later =>
    earlier.commandID ≠ later.commandID → earlier.sequence < later.sequence

/-- Every INCR is answered, and a command is appended only when no command
with a smaller number has attempts left. -/
def InTurn (log : CommandLog) : SendAction → Prop
  | .createEnvelope _ _ incr => incr = .answered
  | .attempt index xadd => xadd ≠ .failed →
      ∀ sending ∈ log.sendings[index]?, sending.attempts ≠ 0 →
        ∀ other ∈ log.sendings, other.attempts ≠ 0 →
          sending.envelope.sequence ≤ other.envelope.sequence

instance (log : CommandLog) (action : SendAction) :
    Decidable (log.InTurn action) :=
  match action with
  | .createEnvelope _ _ incr => inferInstanceAs (Decidable (incr = .answered))
  | .attempt index xadd =>
      inferInstanceAs (Decidable (xadd ≠ .failed →
        ∀ sending ∈ log.sendings[index]?, sending.attempts ≠ 0 →
          ∀ other ∈ log.sendings, other.attempts ≠ 0 →
            sending.envelope.sequence ≤ other.envelope.sequence))

def envelopes (log : CommandLog) : List CommandEnvelope :=
  log.sendings.map Sending.envelope

/-- Numbers belong to one command each, and those in the stream are not above
those that may still be appended. -/
structure Sorted (log : CommandLog) : Prop where
  bounded : ∀ {envelope}, envelope ∈ log.envelopes →
    envelope.sequence ≤ log.counter
  distinct : (log.envelopes.map CommandEnvelope.sequence).Nodup
  sent : ∀ {envelope}, envelope ∈ log.stream → envelope ∈ log.envelopes
  behind : ∀ {envelope sending}, envelope ∈ log.stream →
    sending ∈ log.sendings → sending.attempts ≠ 0 →
      envelope.sequence ≤ sending.envelope.sequence
  sorted : log.stream.Pairwise fun earlier later =>
    earlier.sequence ≤ later.sequence

private theorem Sorted.inSequence {log : CommandLog} (sorted : log.Sorted) :
    log.InSequence := by
  apply sorted.sorted.imp_of_mem
  intro earlier later inStream laterInStream le different
  apply Nat.lt_of_le_of_ne le
  intro same
  apply different
  have copy : earlier = later :=
    List.inj_on_of_nodup_map sorted.distinct (sorted.sent inStream)
      (sorted.sent laterInStream) same
  rw [copy]

private theorem sorted_createEnvelope {log : CommandLog} (sorted : log.Sorted)
    (commandID : String) (kind : SendKind) :
    (log.createEnvelope commandID kind .answered).Sorted := by
  have envelopes : (log.createEnvelope commandID kind .answered).envelopes =
      log.envelopes ++ [⟨commandID, log.counter + 1⟩] :=
    List.map_append
  constructor
  case bounded =>
    intro envelope member
    rw [envelopes, List.mem_append, List.mem_singleton] at member
    rcases member with old | rfl
    · exact Nat.le_succ_of_le (sorted.bounded old)
    · exact Nat.le_refl _
  case distinct =>
    rw [envelopes, List.map_append, List.nodup_append]
    refine ⟨sorted.distinct, List.nodup_singleton _, ?_⟩
    intro number old new isNew
    obtain ⟨envelope, member, rfl⟩ := List.mem_map.mp old
    have bound := sorted.bounded member
    rw [List.map_singleton, List.mem_singleton] at isNew
    change new = log.counter + 1 at isNew
    omega
  case sent =>
    intro envelope inStream
    rw [envelopes]
    exact List.mem_append_left _ (sorted.sent inStream)
  case behind =>
    intro envelope sending inStream member pending
    rcases List.mem_append.mp member with old | new
    · exact sorted.behind inStream old pending
    · rw [List.mem_singleton.mp new]
      exact Nat.le_succ_of_le (sorted.bounded (sorted.sent inStream))
  case sorted => exact sorted.sorted

private theorem sorted_append {log : CommandLog} (sorted : log.Sorted)
    {sending : Sending} (member : sending ∈ log.sendings)
    (pending : sending.attempts ≠ 0)
    (smallest : ∀ other ∈ log.sendings, other.attempts ≠ 0 →
      sending.envelope.sequence ≤ other.envelope.sequence) :
    Sorted { log with stream := log.stream ++ [sending.envelope] } := by
  refine ⟨sorted.bounded, sorted.distinct, ?_, ?_, ?_⟩
  · intro envelope inStream
    rcases List.mem_append.mp inStream with old | new
    · exact sorted.sent old
    · rw [List.mem_singleton.mp new]
      exact List.mem_map_of_mem member
  · intro envelope other inStream isOther waits
    rcases List.mem_append.mp inStream with old | new
    · exact sorted.behind old isOther waits
    · rw [List.mem_singleton.mp new]
      exact smallest other isOther waits
  · rw [List.pairwise_append]
    refine ⟨sorted.sorted, List.pairwise_singleton _ _, ?_⟩
    intro earlier inStream later new
    rw [List.mem_singleton.mp new]
    exact sorted.behind inStream member pending

private theorem sorted_tried {log : CommandLog} (sorted : log.Sorted)
    {index : Nat}
    {sending : Sending} (found : log.sendings[index]? = some sending)
    (pending : sending.attempts ≠ 0) (left : Nat) :
    Sorted
      { log with
        sendings := log.sendings.set index
          { sending with attempts := left } } := by
  have same : (log.sendings.set index { sending with attempts := left }).map
      Sending.envelope = log.envelopes := by
    rw [List.map_set]
    apply List.ext_getElem?
    intro position
    rw [List.getElem?_set]
    split
    · rename_i isIndex
      subst isIndex
      have inside : index < (log.sendings.map Sending.envelope).length := by
        rw [List.length_map]
        exact (List.getElem?_eq_some_iff.mp found).1
      rw [if_pos inside, envelopes, List.getElem?_map, found]
      rfl
    · rfl
  refine ⟨?_, ?_, ?_, ?_, sorted.sorted⟩
  · intro envelope
    rw [envelopes, same]
    exact sorted.bounded
  · rw [envelopes, same]
    exact sorted.distinct
  · intro envelope inStream
    rw [envelopes, same]
    exact sorted.sent inStream
  · intro envelope other inStream isOther waits
    rcases List.mem_or_eq_of_mem_set isOther with old | rfl
    · exact sorted.behind inStream old waits
    · change envelope.sequence ≤ sending.envelope.sequence
      exact sorted.behind inStream (List.mem_of_getElem? found) pending

private theorem sorted_attempt {log : CommandLog} (sorted : log.Sorted)
    {index : Nat}
    {xadd : Call} (inTurn : log.InTurn (.attempt index xadd)) :
    (log.attempt index xadd).Sorted := by
  unfold attempt
  split
  · exact sorted
  · rename_i sending found
    split
    · exact sorted
    · rename_i pending
      have streamed : Sorted
          { log with
            stream := log.stream ++ appended sending.envelope xadd } := by
        cases xadd with
        | failed =>
            rw [appended, List.append_nil]
            exact sorted
        | answered =>
            exact sorted_append sorted (List.mem_of_getElem? found) pending
              (inTurn (by decide) sending found pending)
        | unanswered =>
            exact sorted_append sorted (List.mem_of_getElem? found) pending
              (inTurn (by decide) sending found pending)
      exact sorted_tried streamed found pending _

theorem sorted_step {log : CommandLog} (sorted : log.Sorted)
    {action : SendAction} (inTurn : log.InTurn action) :
    (log.step action).Sorted := by
  cases action with
  | createEnvelope commandID kind incr =>
      cases inTurn
      exact sorted_createEnvelope sorted commandID kind
  | attempt index xadd => exact sorted_attempt sorted inTurn

theorem sorted_start : start.Sorted := by
  constructor <;> simp [start, envelopes]

end CommandLog

/-- If every INCR is answered and commands are appended in turn, the sequence
numbers agree with the order of the command stream. -/
theorem commands_inSequence (actions : List SendAction)
    (inTurn : Along CommandLog.step CommandLog.InTurn CommandLog.start
      actions) :
    (CommandLog.start.run actions).InSequence :=
  (invariant_runFrom CommandLog.Sorted
    (fun _ _ sorted inTurn => CommandLog.sorted_step sorted inTurn)
    CommandLog.sorted_start inTurn).inSequence

/-- Two processes. The first XADD of the first is not answered and repeated. -/
theorem inSequence_retried :
    (CommandLog.start.run
        [.createEnvelope "a" .sendAndAwait .answered,
          .createEnvelope "b" .sendCommand .answered, .attempt 0 .unanswered,
          .attempt 0 .answered, .attempt 1 .answered]).stream =
      [⟨"a", 1⟩, ⟨"a", 1⟩, ⟨"b", 2⟩] ∧
    (CommandLog.start.run
      [.createEnvelope "a" .sendAndAwait .answered,
        .createEnvelope "b" .sendCommand .answered, .attempt 0 .unanswered,
        .attempt 0 .answered, .attempt 1 .answered]).InSequence :=
  ⟨by decide, commands_inSequence _ (by decide)⟩

/-- The process that draws second appends first. -/
theorem overtaken_outOfSequence :
    ¬ (CommandLog.start.run
      [.createEnvelope "a" .sendCommand .answered,
        .createEnvelope "b" .sendCommand .answered, .attempt 1 .answered,
        .attempt 0 .answered]).InSequence := by
  unfold CommandLog.InSequence
  decide

end Predix
