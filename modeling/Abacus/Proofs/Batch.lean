import Abacus.Batch
import Abacus.Proofs.Trimming
/-!
A run over lines is its lines one by one.

`Outcome.ofLine?` says what is reported about a line from its text and its number alone. A run
reports this for each line up to the first that cannot be read, records the values among the
outcomes, and counts them.
-/

namespace Abacus

/-- The record of a calculation, which there is only for a value. -/
def Record.ofResult? (input : List Char) : Except Failure Evaluation → Option Record
  | .ok e => some ⟨input, e.formatted⟩
  | .error _ => none

theorem isSome_ofResult? (input : List Char) (result : Except Failure Evaluation) :
    (Record.ofResult? input result).isSome = result.isOk := by
  cases result <;> rfl

def Record.ofText? (input : List Char) : Option Record :=
  Record.ofResult? input (Evaluation.ofText input)

namespace Session

theorem fst_evaluate (s : Session) (typed : List Char) :
    (s.evaluate typed).1 = Evaluation.ofText (trim typed) := by
  simp only [evaluate]
  cases Evaluation.ofText (trim typed) <;> rfl

theorem history_evaluate (s : Session) (typed : List Char) :
    (s.evaluate typed).2.history = s.history ++ (Record.ofText? (trim typed)).toList := by
  simp only [evaluate, Record.ofText?]
  cases Evaluation.ofText (trim typed) with
  | ok e => rfl
  | error e => exact (List.append_nil s.history).symm

theorem fst_evaluate_trim (s : Session) (line : List Char) :
    (s.evaluate (trim line)).1 = Evaluation.ofText (trim line) := by
  rw [fst_evaluate, trim_trim]

theorem snd_evaluate_trim (s : Session) (line : List Char) :
    (s.evaluate (trim line)).2 = ⟨s.history ++ (Record.ofText? (trim line)).toList⟩ := by
  have hhistory := s.history_evaluate (trim line)
  rw [trim_trim] at hhistory
  rw [← hhistory]

end Session

namespace Lines

/-- The lines before the first that cannot be read. -/
def readable : List Line → List (List Char)
  | .ok line :: lines => line :: readable lines
  | .error _ :: _ | [] => []

/-- Why reading breaks off, if it does. -/
def failure? : List Line → Option ReadError
  | .ok _ :: lines => failure? lines
  | .error e :: _ => some e
  | [] => none

end Lines

namespace Outcome

/-- What is reported about a line, whatever stands before or after it. -/
def ofLine? (number : Nat) (line : List Char) : Option Outcome :=
  if line.all isBlank then none
  else some ⟨number, trim line, Evaluation.ofText (trim line)⟩

/-- What is reported about lines that are numbered from `number` on. -/
def ofLines (number : Nat) (lines : List (List Char)) : List Outcome :=
  (lines.zipIdx number).filterMap fun (line, i) => ofLine? i line

def record? (o : Outcome) : Option Record :=
  Record.ofResult? o.input o.result

theorem ofLines_cons (number : Nat) (line : List Char) (lines : List (List Char)) :
    ofLines number (line :: lines) = (ofLine? number line).toList ++ ofLines (number + 1) lines := by
  rw [ofLines, List.zipIdx_cons]
  cases h : ofLine? number line with
  | none => exact List.filterMap_cons_none h
  | some o => exact List.filterMap_cons_some h

theorem ofLine?_eq_ite (number : Nat) (line : List Char) :
    ofLine? number line = if (trim line).isEmpty then none
      else some ⟨number, trim line, Evaluation.ofText (trim line)⟩ := by
  rw [ofLine?, all_isBlank_eq]

/-- An outcome is about a text without outer blanks, and is the value of that text. -/
theorem of_mem_ofLines {number : Nat} {lines : List (List Char)} {o : Outcome}
    (h : o ∈ ofLines number lines) : trim o.input = o.input ∧ o.result = Evaluation.ofText o.input := by
  obtain ⟨⟨line, i⟩, _, ho⟩ := List.mem_filterMap.mp h
  change ofLine? i line = some o at ho
  unfold ofLine? at ho
  split at ho
  · contradiction
  · cases ho
    exact ⟨trim_trim line, rfl⟩

end Outcome

namespace Summary

def ofOutcomes (outcomes : List Outcome) : Summary where
  evaluated := outcomes.length
  failed := outcomes.countP fun o => !o.result.isOk

theorem foldl_count (s : Summary) (outcomes : List Outcome) :
    outcomes.foldl (fun s o => s.count o.result) s =
      ⟨s.evaluated + outcomes.length, s.failed + outcomes.countP fun o => !o.result.isOk⟩ := by
  induction outcomes generalizing s with
  | nil => rfl
  | cons o rest ih =>
    rw [List.foldl_cons, ih, List.length_cons, List.countP_cons, count]
    cases o.result with
    | ok e =>
      simp only [Except.isOk, Except.toBool, Bool.not_true, if_true, Summary.mk.injEq]
      exact ⟨by omega, by simp⟩
    | error e =>
      simp only [Except.isOk, Except.toBool, Bool.not_false, if_true, Summary.mk.injEq]
      exact ⟨by omega, by simp; omega⟩

/-- Every outcome is a failure or a record. -/
theorem failed_add_length_records (outcomes : List Outcome) :
    (ofOutcomes outcomes).failed + (outcomes.filterMap Outcome.record?).length =
      (ofOutcomes outcomes).evaluated := by
  have hrecords : (outcomes.filterMap Outcome.record?).length =
      outcomes.countP fun o => o.result.isOk := by
    rw [List.length_filterMap_eq_countP]
    refine List.countP_congr fun o _ => ?_
    rw [Outcome.record?, isSome_ofResult?]
  rw [hrecords]
  show outcomes.countP _ + outcomes.countP _ = outcomes.length
  rw [Nat.add_comm, List.length_eq_countP_add_countP (fun o : Outcome => o.result.isOk)]
  simp

end Summary

namespace Batch

/-- A line that can be read adds what is reported about it, and nothing more. -/
theorem runFrom_cons (number : Nat) (summary : Summary) (session : Session) (line : List Char)
    (lines : List Line) :
    runFrom number summary session (.ok line :: lines) =
      match Outcome.ofLine? number line with
      | none => runFrom (number + 1) summary session lines
      | some o =>
          let rest := runFrom (number + 1) (summary.count o.result)
            ⟨session.history ++ o.record?.toList⟩ lines
          { rest with outcomes := o :: rest.outcomes } := by
  rw [runFrom, Outcome.ofLine?_eq_ite]
  by_cases hblank : (trim line).isEmpty = true
  · simp only [hblank, if_true]
  · simp only [hblank, if_false, Bool.false_eq_true, session.fst_evaluate_trim,
      session.snd_evaluate_trim, Record.ofText?, Outcome.record?]

theorem runFrom_eq (number : Nat) (summary : Summary) (session : Session) (lines : List Line) :
    let outcomes := Outcome.ofLines number (Lines.readable lines)
    runFrom number summary session lines =
      ⟨outcomes, ⟨session.history ++ outcomes.filterMap Outcome.record?⟩,
        (Lines.failure? lines).elim
          (.ok (outcomes.foldl (fun s o => s.count o.result) summary)) .error⟩ := by
  induction lines generalizing number summary session with
  | nil =>
    show (⟨[], session, .ok summary⟩ : Batch) = ⟨[], ⟨session.history ++ []⟩, .ok summary⟩
    rw [List.append_nil]
  | cons line lines ih =>
    cases line with
    | error e =>
      show (⟨[], session, .error e⟩ : Batch) = ⟨[], ⟨session.history ++ []⟩, .error e⟩
      rw [List.append_nil]
    | ok line =>
      rw [runFrom_cons, Lines.readable, Lines.failure?, Outcome.ofLines_cons]
      cases Outcome.ofLine? number line with
      | none => exact ih (number + 1) summary session
      | some o =>
        dsimp only
        rw [ih]
        simp only [Option.toList_some, List.singleton_append, List.foldl_cons, List.filterMap_cons]
        cases o.record? with
        | none => simp
        | some r => simp

/--
A run over lines reports each line up to the first that cannot be read as that line alone is
reported, and is silent about blank ones. The history grows by the records of the outcomes in order.
The summary counts the outcomes and the failures among them, and the failure to read takes its place.
-/
theorem run_line_by_line (session : Session) (lines : List Line) :
    let outcomes := Outcome.ofLines 1 (Lines.readable lines)
    let batch := run session lines
    batch.outcomes = outcomes ∧
      batch.session.history = session.history ++ outcomes.filterMap Outcome.record? ∧
      batch.summary = (Lines.failure? lines).elim (.ok (Summary.ofOutcomes outcomes)) .error ∧
      (Summary.ofOutcomes outcomes).failed ≤ (Summary.ofOutcomes outcomes).evaluated ∧
      (Summary.ofOutcomes outcomes).succeeded = (outcomes.filterMap Outcome.record?).length := by
  intro outcomes batch
  have hbatch : batch = _ := runFrom_eq 1 {} session lines
  have hcount := Summary.failed_add_length_records outcomes
  refine ⟨by rw [hbatch], by rw [hbatch], ?_, by omega, ?_⟩
  · rw [hbatch, Summary.foldl_count]
    simp only [Nat.zero_add]
    rfl
  · unfold Summary.succeeded
    omega

end Batch
end Abacus
