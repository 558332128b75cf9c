import Mathlib.Data.List.DropRight

namespace Predix.Data

/-! Frames that end with a separator, and a scanner that reads them back until
one of them does not fit its buffer. -/

variable {α : Type} [DecidableEq α]

/-- Cut a stream at its separators. `current` is what has been read of the
frame at hand; the flag is false when that reaches the limit. -/
def scanFrames (separator : α) (limit : Nat) :
    List α → List α → List (List α) × Bool
  | current, [] => (if current = [] then [] else [current], true)
  | current, symbol :: rest =>
      if symbol = separator then
        let later := scanFrames separator limit [] rest
        (current :: later.1, later.2)
      else if current.length + 1 < limit then
        scanFrames separator limit (current ++ [symbol]) rest
      else
        ([], false)

def framed (separator : α) (frames : List (List α)) (tail : List α) : List α :=
  frames.flatMap (· ++ [separator]) ++ tail

/-- What follows the last separator. -/
def unfinished (separator : α) (stream : List α) : List α :=
  stream.rtakeWhile (decide <| · ≠ separator)

section Written

variable {separator : α} {frames : List (List α)} {tail : List α}

omit [DecidableEq α] in
theorem framed_append (written : List α) :
    framed separator frames tail ++ written =
      framed separator frames (tail ++ written) :=
  List.append_assoc _ _ _

omit [DecidableEq α] in
theorem framed_cons (frame : List α) :
    framed separator (frame :: frames) tail =
      frame ++ separator :: framed separator frames tail := by
  simp [framed, List.append_assoc]

omit [DecidableEq α] in
theorem framed_append_separator (written : List α) :
    framed separator frames tail ++ (written ++ [separator]) =
      framed separator (frames ++ [tail ++ written]) [] := by
  simp [framed, List.append_assoc]

theorem separator_notMem_unfinished (separator : α) (stream : List α) :
    separator ∉ unfinished separator stream := by
  intro member
  have different := List.mem_rtakeWhile_imp member
  simp at different

theorem unfinished_append (stream : List α) {written : List α}
    (absent : separator ∉ written) :
    unfinished separator (stream ++ written) =
      unfinished separator stream ++ written := by
  induction written using List.reverseRecOn with
  | nil => rw [List.append_nil, List.append_nil]
  | append_singleton written last induction =>
      rw [List.mem_append, List.mem_singleton, not_or] at absent
      have different : decide (last ≠ separator) = true :=
        decide_eq_true (Ne.symm absent.2)
      have step := List.rtakeWhile_concat_pos
        (fun symbol => decide (symbol ≠ separator)) (stream ++ written) last
        different
      rw [← List.append_assoc, unfinished, step, ← List.append_assoc,
        ← induction absent.1]
      rfl

theorem unfinished_append_separator (stream : List α) :
    unfinished separator (stream ++ [separator]) = [] :=
  List.rtakeWhile_concat_neg _ _ _ (by simp)

end Written

section Scanned

variable {separator : α} {limit : Nat}

theorem scanFrames_within {line : List α} (absent : separator ∉ line)
    {current : List α} (fits : current.length + line.length < limit)
    (rest : List α) :
    scanFrames separator limit current (line ++ rest) =
      scanFrames separator limit (current ++ line) rest := by
  induction line generalizing current with
  | nil => rw [List.nil_append, List.append_nil]
  | cons symbol line induction =>
      rw [List.mem_cons, not_or] at absent
      rw [List.length_cons] at fits
      have shorter : (current ++ [symbol]).length + line.length < limit := by
        rw [List.length_append, List.length_singleton]
        omega
      rw [List.cons_append, scanFrames, if_neg (Ne.symm absent.1),
        if_pos (by omega), induction absent.2 shorter, List.append_assoc]
      rfl

private theorem scanFrames_beyond {line : List α} (absent : separator ∉ line)
    {current : List α} (started : current.length < limit)
    (tooLong : limit ≤ current.length + line.length) (rest : List α) :
    (scanFrames separator limit current (line ++ rest)).2 = false := by
  induction line generalizing current with
  | nil =>
      rw [List.length_nil] at tooLong
      omega
  | cons symbol line induction =>
      rw [List.mem_cons, not_or] at absent
      rw [List.length_cons] at tooLong
      rw [List.cons_append, scanFrames, if_neg (Ne.symm absent.1)]
      split
      · rename_i more
        have length : (current ++ [symbol]).length = current.length + 1 := by
          rw [List.length_append, List.length_singleton]
        exact induction absent.2 (by omega) (by omega)
      · rfl

theorem scanFrames_line {line : List α} (absent : separator ∉ line)
    (fits : line.length < limit) (rest : List α) :
    scanFrames separator limit [] (line ++ separator :: rest) =
      (line :: (scanFrames separator limit [] rest).1,
        (scanFrames separator limit [] rest).2) := by
  have start : ([] : List α).length + line.length < limit := by
    rw [List.length_nil]
    omega
  rw [scanFrames_within absent start, List.nil_append, scanFrames, if_pos rfl]

/-- Frames that fit are read back, and so is what follows them. -/
theorem scanFrames_framed {frames : List (List α)} {tail : List α}
    (absent : ∀ frame ∈ frames, separator ∉ frame)
    (fits : ∀ frame ∈ frames, frame.length < limit)
    (tailAbsent : separator ∉ tail) (tailFits : tail.length < limit) :
    scanFrames separator limit [] (framed separator frames tail) =
      (frames ++ if tail = [] then [] else [tail], true) := by
  induction frames with
  | nil =>
      have start : ([] : List α).length + tail.length < limit := by
        rw [List.length_nil]
        omega
      have read := scanFrames_within tailAbsent start []
      rw [List.append_nil, List.nil_append] at read
      exact read
  | cons frame frames induction =>
      rw [List.forall_mem_cons] at absent fits
      rw [framed_cons, scanFrames_line absent.1 fits.1,
        induction absent.2 fits.2]
      rfl

theorem scanFrames_framed_fits (buffered : 0 < limit)
    {frames : List (List α)} {tail : List α}
    (absent : ∀ frame ∈ frames, separator ∉ frame)
    (tailAbsent : separator ∉ tail)
    (readable : (scanFrames separator limit []
      (framed separator frames tail)).2 = true) :
    (∀ frame ∈ frames, frame.length < limit) ∧ tail.length < limit := by
  -- a line of the stream that starts a frame and does not fit ends the scan
  have fitting : ∀ {line rest : List α}, separator ∉ line →
      (scanFrames separator limit [] (line ++ rest)).2 = true →
        line.length < limit := by
    intro line rest lineAbsent read
    by_contra tooLong
    have stopped := @scanFrames_beyond _ _ _ limit line lineAbsent [] buffered
      (by rw [List.length_nil]; omega) rest
    rw [stopped] at read
    contradiction
  induction frames with
  | nil =>
      refine ⟨by simp, ?_⟩
      apply @fitting tail [] tailAbsent
      rw [List.append_nil]
      exact readable
  | cons frame frames induction =>
      rw [List.forall_mem_cons] at absent
      rw [framed_cons] at readable
      have head := fitting absent.1 readable
      rw [scanFrames_line absent.1 head] at readable
      obtain ⟨later, last⟩ := induction absent.2 readable
      exact ⟨List.forall_mem_cons.mpr ⟨head, later⟩, last⟩

end Scanned

end Predix.Data
