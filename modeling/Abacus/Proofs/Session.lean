import Abacus.Proofs.Batch
import Abacus.Proofs.Calculation
/-!
The history of a session, whatever is done with it.

Every operation evaluates some texts one after the other, each without its outer blanks, and
records those that have a value. Sequences of operations do the same, so the history is the list of
all values delivered since the session began.
-/

namespace Abacus
namespace Session

/-- What can be done with a session. A source that breaks off is its lines with the failure at the end. -/
inductive Operation where
  | evaluate (typed : List Char)
  | lines (lines : List Line)
  | bytes (bytes : List UInt8)
  | file (files : Files) (path : List Char)

/-- The results that were delivered, in order, and the session after them. -/
structure Progress where
  results : List (Except Failure Evaluation)
  session : Session

def Progress.ofBatch (b : Batch) : Progress :=
  ⟨b.outcomes.map Outcome.result, b.session⟩

def perform (s : Session) : Operation → Progress
  | .evaluate typed => ⟨[(s.evaluate typed).1], (s.evaluate typed).2⟩
  | .lines lines => .ofBatch (Batch.run s lines)
  | .bytes bytes => .ofBatch (Batch.runBytes s bytes)
  | .file files path => .ofBatch (Batch.runFile files s path)

def performAll (s : Session) : List Operation → Progress
  | [] => ⟨[], s⟩
  | op :: ops =>
      let first := s.perform op
      let rest := first.session.performAll ops
      ⟨first.results ++ rest.results, rest.session⟩

/-! ## The texts that are evaluated -/

/-- The records of the texts that have a value. -/
def recordsOf (inputs : List (List Char)) : History :=
  inputs.filterMap Record.ofText?

/-- The progress consists in the evaluation of these texts. -/
structure Evaluates (s : Session) (inputs : List (List Char)) (p : Progress) : Prop where
  trim_eq : ∀ input ∈ inputs, trim input = input
  results_eq : p.results = inputs.map Evaluation.ofText
  history_eq : p.session.history = s.history ++ recordsOf inputs

theorem evaluates_evaluate (s : Session) (typed : List Char) :
    s.Evaluates [trim typed] (s.perform (.evaluate typed)) where
  trim_eq := by simp
  results_eq := congrArg (fun result => [result]) (s.fst_evaluate typed)
  history_eq := by
    show (s.evaluate typed).2.history = s.history ++ recordsOf [trim typed]
    rw [history_evaluate, recordsOf]
    cases h : Record.ofText? (trim typed) with
    | none => rw [List.filterMap_cons_none h]; rfl
    | some r => rw [List.filterMap_cons_some h]; rfl

theorem evaluates_run (s : Session) (lines : List Line) :
    ∃ inputs, s.Evaluates inputs (.ofBatch (Batch.run s lines)) := by
  have hrun : Batch.run s lines = _ := Batch.runFrom_eq 1 {} s lines
  rw [hrun]
  have hall : ∀ o ∈ Outcome.ofLines 1 (Lines.readable lines), _ :=
    fun o ho => Outcome.of_mem_ofLines ho
  generalize Outcome.ofLines 1 (Lines.readable lines) = outcomes at hall
  refine ⟨outcomes.map Outcome.input, ?_, ?_, ?_⟩
  · intro input hinput
    obtain ⟨o, ho, rfl⟩ := List.mem_map.mp hinput
    exact (hall o ho).1
  · show outcomes.map Outcome.result = _
    rw [List.map_map]
    exact List.map_congr_left fun o ho => (hall o ho).2
  · show s.history ++ outcomes.filterMap Outcome.record? = _
    rw [recordsOf, List.filterMap_map]
    congr 1
    refine List.filterMap_congr fun o ho => ?_
    rw [Outcome.record?, (hall o ho).2, Function.comp_apply, Record.ofText?]

theorem exists_evaluates_perform (s : Session) (op : Operation) :
    ∃ inputs, s.Evaluates inputs (s.perform op) := by
  cases op with
  | evaluate typed => exact ⟨_, s.evaluates_evaluate typed⟩
  | lines lines => exact s.evaluates_run lines
  | bytes bytes => exact s.evaluates_run (Lines.ofBytes bytes)
  | file files path =>
    simp only [perform, Batch.runFile]
    cases files.read path with
    | ok bytes => exact s.evaluates_run (Lines.ofBytes bytes)
    | error e => exact ⟨[], by simp, rfl, (List.append_nil s.history).symm⟩

theorem exists_evaluates_performAll (s : Session) (ops : List Operation) :
    ∃ inputs, s.Evaluates inputs (s.performAll ops) := by
  induction ops generalizing s with
  | nil => exact ⟨[], by simp, rfl, (List.append_nil s.history).symm⟩
  | cons op ops ih =>
    obtain ⟨first, hfirst⟩ := s.exists_evaluates_perform op
    obtain ⟨rest, hrest⟩ := ih (s.perform op).session
    refine ⟨first ++ rest, ?_, ?_, ?_⟩
    · intro input hinput
      rcases List.mem_append.mp hinput with h | h
      · exact hfirst.trim_eq input h
      · exact hrest.trim_eq input h
    · show (s.perform op).results ++ _ = _
      rw [hfirst.results_eq, hrest.results_eq, List.map_append]
    · show ((s.perform op).session.performAll ops).session.history = _
      rw [hrest.history_eq, hfirst.history_eq, List.append_assoc, recordsOf, recordsOf, recordsOf,
        List.filterMap_append]

/-! ## The history -/

theorem length_recordsOf (inputs : List (List Char)) :
    (recordsOf inputs).length =
      (inputs.map Evaluation.ofText).countP fun result => result.isOk := by
  rw [recordsOf, List.length_filterMap_eq_countP, List.countP_map]
  exact List.countP_congr fun input _ => by rw [Record.ofText?, isSome_ofResult?]; rfl

/-- A record is about a text that is not empty and has the value that is recorded. -/
theorem of_mem_recordsOf {inputs : List (List Char)} {r : Record} (h : r ∈ recordsOf inputs) :
    r.input ∈ inputs ∧ r.input ≠ [] ∧
      ∃ e, Evaluation.ofText r.input = .ok e ∧ e.formatted = r.result := by
  obtain ⟨input, hinput, hr⟩ := List.mem_filterMap.mp h
  unfold Record.ofText? at hr
  cases hresult : Evaluation.ofText input with
  | error e =>
    rw [hresult] at hr
    contradiction
  | ok e =>
    rw [hresult] at hr
    cases hr
    refine ⟨hinput, ?_, e, hresult, rfl⟩
    rintro rfl
    rw [Evaluation.ofText_nil] at hresult
    contradiction

/-- An evaluation that fails leaves the session as it was. -/
theorem snd_evaluate_of_error {s : Session} {typed : List Char} {failure : Failure}
    (h : (s.evaluate typed).1 = .error failure) : (s.evaluate typed).2 = s := by
  rw [fst_evaluate] at h
  simp only [evaluate, h]

/--
After any operations on a new session its history holds, for each value that was delivered, one
record of a text that still has that value. No operation changes what was recorded before it, and an
evaluation that fails changes nothing.
-/
theorem history_performAll (ops : List Operation) :
    let progress := ({} : Session).performAll ops
    let s := progress.session
    (∀ r ∈ s.history, r.input ≠ [] ∧ trim r.input = r.input ∧
        ∃ e, Evaluation.ofText r.input = .ok e ∧ e.formatted = r.result) ∧
      s.history.length = progress.results.countP (fun result => result.isOk) ∧
      (∀ op, s.history <+: (s.perform op).session.history) ∧
      ∀ typed failure, (s.evaluate typed).1 = .error failure → (s.evaluate typed).2 = s := by
  intro progress s
  obtain ⟨inputs, htrim, hresults, hhistory⟩ := ({} : Session).exists_evaluates_performAll ops
  change s.history = [] ++ recordsOf inputs at hhistory
  rw [List.nil_append] at hhistory
  refine ⟨?_, ?_, ?_, fun typed failure h => snd_evaluate_of_error h⟩
  · intro r hr
    rw [hhistory] at hr
    obtain ⟨hinput, hne, hvalue⟩ := of_mem_recordsOf hr
    exact ⟨hne, htrim _ hinput, hvalue⟩
  · rw [hhistory, length_recordsOf]
    exact congrArg _ hresults.symm
  · intro op
    obtain ⟨more, hmore⟩ := s.exists_evaluates_perform op
    exact ⟨recordsOf more, hmore.history_eq.symm⟩

/-- A run that breaks off after a failed line, and a failed evaluation after it. -/
theorem history_performAll_of_broken_run :
    let ops : List Operation := [.evaluate " 2+2 ".toList,
      .lines [.ok "1/0".toList, .ok "6*7\t".toList, .error .notUtf8, .ok ['5']]]
    let progress := ({} : Session).performAll ops
    let s := progress.session
    let r : Record := ⟨"6*7".toList, "42".toList⟩
    r ∈ s.history ∧ (r.input ≠ [] ∧ trim r.input = r.input ∧
        ∃ e, Evaluation.ofText r.input = .ok e ∧ e.formatted = r.result) ∧
      s.history.length = 2 ∧ progress.results.countP (fun result => result.isOk) = 2 ∧
      (s.evaluate "5%0".toList).1 = .error (.moduloByZero ⟨['5'], ['0'], ⟨0, 3⟩⟩) ∧
      (s.evaluate "5%0".toList).2 = s := by
  intro ops progress s r
  obtain ⟨hrecords, hlength, _, hfailed⟩ := history_performAll ops
  have hhistory : s.history = [⟨"2+2".toList, ['4']⟩, r] := by decide +kernel
  have hr : r ∈ s.history := by
    rw [hhistory]
    simp
  have htwo : s.history.length = 2 := by rw [hhistory]; rfl
  have herror : (s.evaluate "5%0".toList).1 = .error (.moduloByZero ⟨['5'], ['0'], ⟨0, 3⟩⟩) := by
    rw [fst_evaluate]
    decide +kernel
  exact ⟨hr, hrecords r hr, htwo, hlength.symm.trans htwo, herror, hfailed _ _ herror⟩

end Session
end Abacus
