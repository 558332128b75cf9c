import Predix.Data.Framing
import Predix.Delivery.Outbox

namespace Predix

open Data

/-! The outbox journal as a file: a line of bytes for every envelope. -/

namespace OutboxFile

def newline : UInt8 := 10

def carriageReturn : UInt8 := 13

def closingBrace : UInt8 := 125

def maxScanTokenSize : Nat := 64 * 1024

def errTooLong : String := "bufio.Scanner: token too long"

/-- `bufio.ScanLines` takes a carriage return for part of the line end. -/
def dropCR (line : List UInt8) : List UInt8 :=
  if line.getLast? = some carriageReturn then line.dropLast else line

/-- `Append`. `Write` fails exactly when it writes less than the whole line;
the flag is false when an error is returned. -/
def append (file data : List UInt8) (written : Nat) (synced : Bool) :
    List UInt8 × Bool :=
  let line := data ++ [newline]
  (file ++ line.take written, decide (line.length ≤ written) && synced)

/-- `ReadAll`: the lines that are not empty, up to the first that does not fit
the scanner's buffer. -/
def readAll (file : List UInt8) : List (List UInt8) × Option String :=
  let scanned := scanFrames newline maxScanTokenSize [] file
  ((scanned.1.map dropCR).filter (decide <| · ≠ []),
    if scanned.2 then none else some errTooLong)

/-- Republish lines until one is refused. `decode` is `json.Unmarshal`; a line
it does not understand is skipped. -/
def republishLines (decode : List UInt8 → Option Envelope)
    (stream : List Envelope) :
    List (List UInt8) → List Publication → List Envelope × Bool
  | [], _ => (stream, true)
  | line :: lines, publications =>
      match decode line with
      | none => republishLines decode stream lines publications
      | some envelope =>
          match publications with
          | [] => (stream, false)
          | publication :: publications =>
              let (stream, accepted) := publishEnvelope stream envelope
                envelope.event.broadcast publication
              if accepted then
                republishLines decode stream lines publications
              else
                (stream, false)

/-- `Recover`: the journal and the stream afterwards, and whether it returns
without an error. -/
def recover (decode : List UInt8 → Option Envelope) (file : List UInt8)
    (stream : List Envelope) (publications : List Publication)
    (truncated : Bool) : List UInt8 × List Envelope × Bool :=
  let (lines, error) := readAll file
  match error with
  | some _ => (file, stream, false)
  | none =>
      if lines = [] then
        (file, stream, true)
      else
        let (stream, accepted) :=
          republishLines decode stream lines publications
        if accepted then
          (if truncated then [] else file, stream, truncated)
        else
          (file, stream, false)

/-! Sequences of calls. -/

/-- What `json.Marshal` returns for an envelope: an object, on one line. -/
structure EnvelopeBytes where
  bytes : List UInt8
  oneLine : newline ∉ bytes
  object : bytes.getLast? = some closingBrace

/-- A call of `Append`: the envelope, and how many bytes of its line reach the
file. A line that is written is also synced. -/
structure AppendCall where
  envelope : EnvelopeBytes
  written : Nat

def AppendCall.succeeds (call : AppendCall) : Prop :=
  call.envelope.bytes.length < call.written

instance (call : AppendCall) : Decidable call.succeeds :=
  inferInstanceAs (Decidable (_ < _))

structure Journal where
  file : List UInt8
  appended : List (List UInt8)

namespace Journal

def empty : Journal := ⟨[], []⟩

def step (journal : Journal) (call : AppendCall) : Journal :=
  let (file, ok) :=
    append journal.file call.envelope.bytes call.written true
  ⟨file, if ok then journal.appended ++ [call.envelope.bytes]
    else journal.appended⟩

def run (journal : Journal) (calls : List AppendCall) : Journal :=
  runFrom step journal calls

/-- The journal can be read, every appended envelope is one of its lines, in
order, and a recovery without errors republishes it. -/
structure ReadsBack (journal : Journal) : Prop where
  readable : (readAll journal.file).2 = none
  kept : journal.appended.Sublist (readAll journal.file).1
  republished : ∀ decode stream publications truncated,
    (recover decode journal.file stream publications truncated).2.2 = true →
      ∃ published,
        (recover decode journal.file stream publications truncated).2.1 =
            stream ++ published ∧
          (journal.appended.filterMap decode).Sublist published

/-- A whole line is written at the start of a line and fits the scanner's
buffer; what is written of a line fits together with what is there. -/
def Clean (journal : Journal) (call : AppendCall) : Prop :=
  if call.succeeds then
    unfinished newline journal.file = [] ∧
      call.envelope.bytes.length < maxScanTokenSize
  else
    (unfinished newline journal.file).length + call.written <
      maxScanTokenSize

instance (journal : Journal) (call : AppendCall) :
    Decidable (journal.Clean call) :=
  inferInstanceAs (Decidable (if call.succeeds then
    unfinished newline journal.file = [] ∧
      call.envelope.bytes.length < maxScanTokenSize
  else
    (unfinished newline journal.file).length + call.written <
      maxScanTokenSize))

end Journal

/-! Recovery. -/

private theorem republishLines_eq (decode : List UInt8 → Option Envelope)
    (stream : List Envelope) (lines : List (List UInt8))
    (publications : List Publication) :
    republishLines decode stream lines publications =
      republishAll stream (lines.filterMap decode) publications := by
  induction lines generalizing stream publications with
  | nil => rfl
  | cons line lines induction =>
      unfold republishLines
      cases decoded : decode line with
      | none =>
          rw [List.filterMap_cons_none decoded]
          exact induction stream publications
      | some envelope =>
          rw [List.filterMap_cons_some decoded]
          cases publications with
          | nil => rfl
          | cons publication publications =>
              simp only [republishAll, induction]

private theorem recover_published {decode : List UInt8 → Option Envelope}
    {file : List UInt8} {stream : List Envelope}
    {publications : List Publication} {truncated : Bool}
    (done : (recover decode file stream publications truncated).2.2 = true) :
    (recover decode file stream publications truncated).2.1 =
      stream ++ (readAll file).1.filterMap decode := by
  unfold recover at done ⊢
  generalize readAll file = read at done ⊢
  obtain ⟨lines, error⟩ := read
  cases error with
  | some message => contradiction
  | none =>
      by_cases nothing : lines = []
      · subst nothing
        exact (List.append_nil stream).symm
      · simp only [if_neg nothing, republishLines_eq] at done ⊢
        have accepted := @republishAll_accepted stream
          (lines.filterMap decode) publications
        generalize republishAll stream (lines.filterMap decode)
          publications = result at done accepted ⊢
        obtain ⟨after, complete⟩ := result
        cases complete with
        | false => contradiction
        | true => exact accepted rfl

/-! Lines that end an object are read as they are. -/

private theorem dropCR_of_object {line : List UInt8}
    (object : line.getLast? = some closingBrace) : dropCR line = line := by
  unfold dropCR
  rw [object]
  exact if_neg (by decide)

theorem readAll_framed {lines : List (List UInt8)} {tail : List UInt8}
    (oneLine : ∀ line ∈ lines, newline ∉ line)
    (object : ∀ line ∈ lines, line.getLast? = some closingBrace)
    (fits : ∀ line ∈ lines, line.length < maxScanTokenSize)
    (tailOneLine : newline ∉ tail) (tailFits : tail.length < maxScanTokenSize) :
    ∃ last, readAll (framed newline lines tail) = (lines ++ last, none) ∧
      (tail = [] → last = []) := by
  have asTheyAre : lines.map dropCR = lines := by
    rw [List.map_congr_left fun line member =>
      dropCR_of_object (object line member), List.map_id']
  have notEmpty : lines.filter (decide <| · ≠ []) = lines := by
    rw [List.filter_eq_self]
    intro line member
    apply decide_eq_true
    rintro rfl
    exact absurd (object [] member) (by decide)
  refine ⟨((if tail = [] then [] else [tail]).map dropCR).filter
    (decide <| · ≠ []), ?_, ?_⟩
  · simp only [readAll, scanFrames_framed oneLine fits tailOneLine tailFits,
      List.map_append, List.filter_append, asTheyAre, notEmpty, if_true]
  · intro nothing
    rw [if_pos nothing]
    rfl

private theorem fits_of_readable {lines : List (List UInt8)} {tail : List UInt8}
    (oneLine : ∀ line ∈ lines, newline ∉ line) (tailOneLine : newline ∉ tail)
    (readable : (readAll (framed newline lines tail)).2 = none) :
    (∀ line ∈ lines, line.length < maxScanTokenSize) ∧
      tail.length < maxScanTokenSize := by
  apply scanFrames_framed_fits (by decide) oneLine tailOneLine
  by_contra stopped
  simp only [readAll, if_neg stopped] at readable
  contradiction

namespace Journal

structure Intact (journal : Journal) : Prop where
  file : journal.file =
    framed newline journal.appended (unfinished newline journal.file)
  oneLine : ∀ line ∈ journal.appended, newline ∉ line
  object : ∀ line ∈ journal.appended, line.getLast? = some closingBrace
  fits : ∀ line ∈ journal.appended, line.length < maxScanTokenSize
  tailFits : (unfinished newline journal.file).length < maxScanTokenSize

private theorem intact_empty : empty.Intact where
  file := rfl
  oneLine := by simp [empty]
  object := by simp [empty]
  fits := by simp [empty]
  tailFits := by decide

private theorem ReadsBack.of_read {journal : Journal}
    {lines : List (List UInt8)}
    (read : readAll journal.file = (lines, none))
    (kept : journal.appended.Sublist lines) : journal.ReadsBack where
  readable := by rw [read]
  kept := by
    rw [read]
    exact kept
  republished := by
    intro decode stream publications truncated done
    refine ⟨_, recover_published done, ?_⟩
    rw [read]
    exact kept.filterMap decode

private theorem Intact.readsBack {journal : Journal} (intact : journal.Intact) :
    journal.ReadsBack := by
  obtain ⟨last, read, _⟩ := readAll_framed intact.oneLine intact.object
    intact.fits (separator_notMem_unfinished newline journal.file)
    intact.tailFits
  rw [← intact.file] at read
  exact .of_read read (List.sublist_append_left _ _)

section Step

variable {journal : Journal} {call : AppendCall} (intact : journal.Intact)

theorem step_of_succeeds (succeeds : call.succeeds) :
    journal.step call =
      ⟨journal.file ++ (call.envelope.bytes ++ [newline]),
        journal.appended ++ [call.envelope.bytes]⟩ := by
  unfold AppendCall.succeeds at succeeds
  have whole : (call.envelope.bytes ++ [newline]).length ≤ call.written := by
    rw [List.length_append, List.length_singleton]
    omega
  simp only [step, append, List.take_of_length_le whole, whole, decide_true,
    Bool.and_self, if_true]

theorem step_of_torn (torn : ¬ call.succeeds) :
    journal.step call =
      ⟨journal.file ++ call.envelope.bytes.take call.written,
        journal.appended⟩ := by
  unfold AppendCall.succeeds at torn
  have part : ¬ (call.envelope.bytes ++ [newline]).length ≤ call.written := by
    rw [List.length_append, List.length_singleton]
    omega
  simp only [step, append, part, decide_false, Bool.false_and,
    List.take_append_of_le_length (Nat.not_lt.mp torn), Bool.false_eq_true,
    if_false]

include intact

private theorem intact_of_clean (clean : journal.Clean call) :
    (journal.step call).Intact := by
  unfold Clean at clean
  by_cases succeeds : call.succeeds
  · rw [if_pos succeeds] at clean
    obtain ⟨startsLine, length⟩ := clean
    have file := intact.file
    rw [startsLine] at file
    rw [step_of_succeeds succeeds]
    have ended : unfinished newline (journal.file ++
        (call.envelope.bytes ++ [newline])) = [] := by
      rw [← List.append_assoc, unfinished_append_separator]
    constructor
    case file =>
      rw [ended]
      change journal.file ++ _ = _
      rw [file, framed_append_separator]
      rfl
    case oneLine =>
      exact List.forall_mem_append.mpr ⟨intact.oneLine,
        List.forall_mem_singleton.mpr call.envelope.oneLine⟩
    case object =>
      exact List.forall_mem_append.mpr ⟨intact.object,
        List.forall_mem_singleton.mpr call.envelope.object⟩
    case fits =>
      exact List.forall_mem_append.mpr ⟨intact.fits,
        List.forall_mem_singleton.mpr length⟩
    case tailFits =>
      rw [ended]
      decide
  · rw [if_neg succeeds] at clean
    rw [step_of_torn succeeds]
    have absent : newline ∉ call.envelope.bytes.take call.written :=
      fun member => call.envelope.oneLine (List.mem_of_mem_take member)
    have tail := unfinished_append journal.file absent
    refine ⟨?_, intact.oneLine, intact.object, intact.fits, ?_⟩
    · rw [tail, ← framed_append]
      exact congrArg (· ++ _) intact.file
    · have length := List.length_take_le call.written call.envelope.bytes
      rw [tail, List.length_append]
      omega

/-- A line that was written behind the rest of another is not read back. -/
theorem clean_of_readsBack (readsBack : (journal.step call).ReadsBack) :
    journal.Clean call := by
  have tailOneLine := separator_notMem_unfinished newline journal.file
  have file := intact.file
  generalize tailIs : unfinished newline journal.file = tail at tailOneLine file
  unfold Clean
  rw [tailIs]
  by_cases succeeds : call.succeeds
  · rw [if_pos succeeds]
    rw [step_of_succeeds succeeds, file, framed_append_separator] at readsBack
    have oneLine : ∀ line ∈ journal.appended ++ [tail ++ call.envelope.bytes],
        newline ∉ line := by
      refine List.forall_mem_append.mpr ⟨intact.oneLine,
        List.forall_mem_singleton.mpr ?_⟩
      rw [List.mem_append, not_or]
      exact ⟨tailOneLine, call.envelope.oneLine⟩
    have object : ∀ line ∈ journal.appended ++ [tail ++ call.envelope.bytes],
        line.getLast? = some closingBrace := by
      refine List.forall_mem_append.mpr ⟨intact.object,
        List.forall_mem_singleton.mpr ?_⟩
      rw [List.getLast?_append, call.envelope.object]
      rfl
    obtain ⟨fits, tailFits⟩ :=
      fits_of_readable oneLine (by simp) readsBack.readable
    obtain ⟨last, read, nothing⟩ :=
      readAll_framed oneLine object fits (by simp) tailFits
    -- as many lines as envelopes, so each line is its envelope
    have kept := readsBack.kept
    change List.Sublist (journal.appended ++ [call.envelope.bytes])
      (readAll (framed newline _ [])).1 at kept
    rw [read, nothing rfl, List.append_nil] at kept
    have same := List.append_cancel_left
      (kept.eq_of_length (by simp only [List.length_append,
        List.length_singleton]))
    rw [List.cons.injEq, List.self_eq_append_left] at same
    refine ⟨same.1, ?_⟩
    have length := fits _ (List.mem_append_right _ (List.mem_singleton_self _))
    rw [same.1] at length
    exact length
  · rw [if_neg succeeds]
    rw [step_of_torn succeeds, file, framed_append] at readsBack
    have written : call.written ≤ call.envelope.bytes.length :=
      Nat.not_lt.mp succeeds
    have absent : newline ∉ tail ++ call.envelope.bytes.take call.written := by
      rw [List.mem_append, not_or]
      exact ⟨tailOneLine,
        fun member => call.envelope.oneLine (List.mem_of_mem_take member)⟩
    have length := (fits_of_readable intact.oneLine absent
      readsBack.readable).2
    rw [List.length_append, List.length_take_of_le written] at length
    exact length

end Step

end Journal

/-- Every state of a sequence of `Append` calls reads back what was appended
exactly when no line is written behind the rest of another and none outgrows
the scanner's buffer. -/
theorem journal_readsBack_iff (calls : List AppendCall) :
    (∀ done rest, calls = done ++ rest →
      (Journal.empty.run done).ReadsBack) ↔
      Along Journal.step Journal.Clean Journal.empty calls :=
  throughout_iff_along_within Journal.Intact Journal.ReadsBack
    (fun _ intact => intact.readsBack)
    (fun _ _ intact _ => ⟨Journal.clean_of_readsBack intact,
      fun clean => (Journal.intact_of_clean intact clean).readsBack⟩)
    (fun _ _ intact _ clean => Journal.intact_of_clean intact clean)
    Journal.intact_empty
    (along_true Journal.step Journal.empty calls)

def digitEnvelope (digit : UInt8) (notNewline : digit ≠ newline) :
    EnvelopeBytes where
  bytes := [123, 34, 97, 34, 58, digit, 125]
  oneLine := by
    simp only [List.mem_cons, List.not_mem_nil, or_false, not_or]
    exact ⟨by decide, by decide, by decide, by decide, by decide,
      Ne.symm notNewline, by decide⟩
  object := rfl

/-- A call fails after three bytes; the next succeeds, and its envelope is read
back as the end of a line that is no envelope. A recovery skips that line and
truncates the journal. -/
theorem tornLine_swallowsNext :
    let journal := Journal.empty.run
      [⟨digitEnvelope 49 (by decide), 3⟩, ⟨digitEnvelope 50 (by decide), 8⟩]
    let line := [123, 34, 97, 123, 34, 97, 34, 58, 50, 125]
    journal.appended = [[123, 34, 97, 34, 58, 50, 125]] ∧
      readAll journal.file = ([line], none) ∧ ¬ journal.ReadsBack ∧
      ∀ decode : List UInt8 → Option Envelope, decode line = none →
        recover decode journal.file [] [] true = ([], [], true) := by
  intro journal line
  have appended : journal.appended = [[123, 34, 97, 34, 58, 50, 125]] := by
    decide
  have read : readAll journal.file = ([line], none) := by decide
  refine ⟨appended, read, ?_, ?_⟩
  · intro readsBack
    have kept := readsBack.kept
    rw [appended, read] at kept
    exact absurd kept (by decide)
  · intro decode corrupt
    simp only [recover, read, republishLines, corrupt, if_true]
    rfl

end OutboxFile

end Predix
