import Abacus.Program
import Abacus.Proofs.Shell
/-!
A run of the program over a file: what it shows, and how it ends.

The failed lines are counted twice. The run over the lines counts them for the exit code, and the
diagnostics that were emitted count them for the last line of the output. Both are the number of
outcomes without a value, so the output and the exit code say the same.
-/

namespace Abacus

namespace Output

def isErr : Output → Bool
  | out _ => false
  | err _ => true

/-- The first character of what goes to the first stream. -/
def mark (o : Output) : Option Char :=
  o.outText.head?

end Output

namespace Diagnostics

theorem errorCount_add (ds : Diagnostics) (d : Diagnostic) :
    (ds.add d).errorCount = ds.errorCount + if d.level == .error then 1 else 0 := by
  rw [errorCount, countAt, add, List.countP_append, List.countP_singleton]
  rfl

end Diagnostics

namespace Shell

/-! ## The two counts -/

theorem diagnostics_concat (outcomes : List Outcome) (o : Outcome) :
    diagnostics (outcomes ++ [o]) =
      match o.result with
      | .ok _ => diagnostics outcomes
      | .error e => (diagnostics outcomes).add e.diagnostic := by
  rw [diagnostics, List.foldl_concat]
  rfl

/-- Every failure is a diagnostic of an error, so the diagnostics count the failures. -/
theorem errorCount_diagnostics (outcomes : List Outcome) :
    (diagnostics outcomes).errorCount = (Summary.ofOutcomes outcomes).failed := by
  show (diagnostics outcomes).errorCount = outcomes.countP fun o => !o.result.isOk
  induction outcomes using List.reverseRecOn with
  | nil => rfl
  | append_singleton outcomes o ih =>
    rw [diagnostics_concat, List.countP_append, ← ih, List.countP_singleton]
    cases o.result with
    | ok e => rfl
    | error e => exact Diagnostics.errorCount_add _ _

theorem any_isErr_showOutcome (config : Config) (o : Outcome) :
    (showOutcome config o).any Output.isErr = !o.result.isOk := by
  rw [showOutcome]
  cases o.result with
  | ok e =>
    show (_ :: showEvaluation config e).any Output.isErr = false
    rw [showEvaluation]
    cases config.showNormalized <;> rfl
  | error e => rfl

/-! ## The last line -/

/-- What is said about a file that was read to its end, if no line failed. -/
def successLine (evaluated : Nat) : Output :=
  .line ("✅ 完成 ".toList ++ natText evaluated ++ " 行".toList)

/-- What is said about a file that was read to its end, if lines failed. -/
def failuresLine (evaluated failed : Nat) : Output :=
  .line ("⚠️  完成 ".toList ++ natText evaluated ++ " 行，其中 ".toList ++ natText failed ++
    " 行失败".toList)

/-- What is said about a file that could not be read to its end. -/
def abortLine (path : List Char) (e : ReadError) : Output :=
  .err ("❌ ".toList ++ Batch.fileError path e ++ ['\n'])

theorem showSummary_of_ok (path : List Char) {b : Batch} {s : Summary} (h : b.summary = .ok s) :
    showSummary path b =
      if (diagnostics b.outcomes).errorCount = 0 then successLine s.evaluated
      else failuresLine s.evaluated (diagnostics b.outcomes).errorCount := by
  have herrors := Diagnostics.hasErrors_iff (diagnostics b.outcomes)
  rw [showSummary, h]
  dsimp only
  by_cases hzero : (diagnostics b.outcomes).errorCount = 0
  · have hnone : ¬ (diagnostics b.outcomes).hasErrors = true := by
      rw [herrors, hzero]
      exact Nat.lt_irrefl 0
    rw [if_pos hzero, if_neg hnone]
    rfl
  · rw [if_neg hzero, if_pos (herrors.mpr (Nat.pos_of_ne_zero hzero))]
    rfl

theorem showSummary_of_error (path : List Char) {b : Batch} {e : ReadError}
    (h : b.summary = .error e) : showSummary path b = abortLine path e := by
  rw [showSummary, h]
  rfl

/-- Everything about a file before its last line begins in a way of its own. -/
theorem mark_of_mem {config : Config} {path : List Char} {outcomes : List Outcome} {output : Output}
    (h : output ∈ heading path :: outcomes.flatMap (showOutcome config)) :
    output.mark ∈ [none, some '📂', some 'P', some ' ', some '='] := by
  rw [List.mem_cons, List.mem_flatMap] at h
  rcases h with rfl | ⟨o, -, ho⟩
  · show some '📂' ∈ _
    simp
  rw [showOutcome, List.mem_cons] at ho
  rcases ho with rfl | ho
  · show some 'P' ∈ _
    simp
  cases hresult : o.result with
  | ok e =>
    rw [hresult, showResult, showEvaluation, List.mem_append, List.mem_singleton] at ho
    rcases ho with ho | rfl
    · split at ho
      · obtain rfl := List.mem_singleton.mp ho
        show some ' ' ∈ _
        simp
      · contradiction
    · show some '=' ∈ _
      simp
  | error e =>
    rw [hresult] at ho
    obtain rfl := List.mem_singleton.mp ho
    show none ∈ _
    simp

/-- The line of success can only be the last one. -/
theorem successLine_mem_iff {config : Config} {path : List Char} {outcomes : List Outcome}
    {last : Output} (n : Nat) :
    successLine n ∈ heading path :: outcomes.flatMap (showOutcome config) ++ [last] ↔
      last = successLine n := by
  rw [List.mem_append, List.mem_singleton, eq_comm (a := last)]
  refine or_iff_right fun h => ?_
  have hmark : some '✅' ∈ [none, some '📂', some 'P', some ' ', some '='] := mark_of_mem h
  contradiction

/-- The line with the number of failures can only be the last one. -/
theorem failuresLine_mem_iff {config : Config} {path : List Char} {outcomes : List Outcome}
    {last : Output} (n m : Nat) :
    failuresLine n m ∈ heading path :: outcomes.flatMap (showOutcome config) ++ [last] ↔
      last = failuresLine n m := by
  rw [List.mem_append, List.mem_singleton, eq_comm (a := last)]
  refine or_iff_right fun h => ?_
  have hmark : some '⚠' ∈ [none, some '📂', some 'P', some ' ', some '='] := mark_of_mem h
  contradiction

theorem failuresLine_ne_successLine (evaluated failed n : Nat) :
    failuresLine evaluated failed ≠ successLine n := by
  intro h
  have hmark : some '⚠' = some '✅' := congrArg Output.mark h
  contradiction

theorem abortLine_ne_line (path : List Char) (e : ReadError) (text : List Char) :
    abortLine path e ≠ .line text :=
  Output.noConfusion

end Shell

/-! ## The exit code -/

/-- No outcome is a failure exactly if every line that is not blank has a value. -/
theorem Summary.failed_eq_zero_iff (number : Nat) (lines : List (List Char)) :
    (ofOutcomes (Outcome.ofLines number lines)).failed = 0 ↔
      ∀ line ∈ lines, line.all isBlank = false → ∃ e, Evaluation.ofText (trim line) = .ok e := by
  have hpairs : (ofOutcomes (Outcome.ofLines number lines)).failed =
      (lines.filterMap Evaluation.ofLine?).countP fun r => !r.2.isOk := by
    rw [← Outcome.map_ofLines number, List.countP_map]
    rfl
  rw [hpairs, List.countP_eq_zero]
  constructor
  · intro h line hline hblank
    have hr := h (trim line, Evaluation.ofText (trim line))
      (List.mem_filterMap.mpr ⟨line, hline, by rw [Evaluation.ofLine?, hblank]; rfl⟩)
    cases hresult : Evaluation.ofText (trim line) with
    | ok e => exact ⟨e, rfl⟩
    | error e => simp [hresult, Except.isOk, Except.toBool] at hr
  · intro h r hr
    obtain ⟨line, hline, hr⟩ := List.mem_filterMap.mp hr
    rw [Evaluation.ofLine?] at hr
    split at hr
    · contradiction
    · next hblank =>
      obtain ⟨e, he⟩ := h line hline (Bool.eq_false_iff.mpr hblank)
      rw [he] at hr
      cases hr
      simp [Except.isOk, Except.toBool]

namespace Program

theorem run_file {files : Files} {env : Environment} {input : List UInt8} {i : Invocation}
    {config : Config} {path : List Char} (hload : Config.load files i.config env = .ok config)
    (haction : i.action = .file path) :
    run files env input i = runFile files (i.adjust config) path := by
  rw [run, hload]
  dsimp only
  rw [haction, runAction]

open Shell (heading showOutcome successLine failuresLine abortLine)

theorem runFile_of_read {files : Files} {path : List Char} (config : Config)
    (h : Lines.failure? (files.lines path) = none) :
    let outcomes := Outcome.ofFile files path
    let failed := (Summary.ofOutcomes outcomes).failed
    runFile files config path =
      ⟨heading path :: outcomes.flatMap (showOutcome config) ++
          [if failed = 0 then successLine outcomes.length
            else failuresLine outcomes.length failed],
        if failed = 0 then 0 else 1⟩ := by
  intro outcomes failed
  have hsummary := Batch.summary_runFile files {} path
  rw [h, Option.elim_none] at hsummary
  have hlast := Shell.showSummary_of_ok path hsummary
  rw [Batch.outcomes_runFile, Shell.errorCount_diagnostics] at hlast
  rw [runFile, hsummary, Shell.showBatch, hlast, Batch.outcomes_runFile]
  simp only [beq_iff_eq]
  rfl

theorem runFile_of_broken {files : Files} {path : List Char} {e : ReadError} (config : Config)
    (h : Lines.failure? (files.lines path) = some e) :
    runFile files config path =
      ⟨heading path :: (Outcome.ofFile files path).flatMap (showOutcome config) ++
        [abortLine path e], 1⟩ := by
  have hsummary := Batch.summary_runFile files {} path
  rw [h, Option.elim_some] at hsummary
  rw [runFile, hsummary, Shell.showBatch, Shell.showSummary_of_error path hsummary,
    Batch.outcomes_runFile]
  rfl

/-- A file that is read to its end and has no failures is one whose text has only lines with values. -/
theorem read_without_failures_iff {files : Files} {path : List Char} :
    (Lines.failure? (files.lines path) = none ∧
        (Summary.ofOutcomes (Outcome.ofFile files path)).failed = 0) ↔
      ∃ bytes text, files.read path = .ok bytes ∧ decodeUtf8? bytes = some text ∧
        ∀ line ∈ Lines.ofText text, line.all isBlank = false →
          ∃ e, Evaluation.ofText (trim line) = .ok e := by
  rw [Files.failure?_lines_eq_none_iff, Outcome.ofFile, Summary.failed_eq_zero_iff]
  constructor
  · rintro ⟨⟨bytes, text, hread, htext⟩, hall⟩
    rw [Files.lines_eq_of_text hread htext, Lines.readable_map_ok] at hall
    exact ⟨bytes, text, hread, htext, hall⟩
  · rintro ⟨bytes, text, hread, htext, hall⟩
    refine ⟨⟨bytes, text, hread, htext⟩, ?_⟩
    rw [Files.lines_eq_of_text hread htext, Lines.readable_map_ok]
    exact hall

/--
A run over a file prints and returns the same story. The diagnostics count as many failed lines as
the run does, which is how many lines had a diagnostic emitted. The line of success is printed
exactly if the exit code is zero, which is so exactly if the file is text and each of its lines has a
value unless it is blank. If reading breaks off, the lines before that are shown, none of the two
lines with a count is, and the exit code is one.
-/
theorem file_output_agrees_with_code (files : Files) (env : Environment) (input : List UInt8)
    (i : Invocation) {config : Config} {path : List Char}
    (hload : Config.load files i.config env = .ok config) (haction : i.action = .file path) :
    let transcript := run files env input i
    let b := Batch.runFile files {} path
    let shown := showOutcome (i.adjust config)
    let failed := (Shell.diagnostics b.outcomes).errorCount
    (b.outcomes.countP fun o => (shown o).any Output.isErr) = failed ∧
      (∀ s, b.summary = .ok s → s.failed = failed ∧
        transcript.outputs = heading path :: b.outcomes.flatMap shown ++
          [if failed = 0 then successLine s.evaluated else failuresLine s.evaluated failed]) ∧
      ((∃ n, successLine n ∈ transcript.outputs) ↔ transcript.code = 0) ∧
      (transcript.code = 0 ↔ ∃ bytes text, files.read path = .ok bytes ∧
        decodeUtf8? bytes = some text ∧ ∀ line ∈ Lines.ofText text, line.all isBlank = false →
          ∃ e, Evaluation.ofText (trim line) = .ok e) ∧
      ∀ e, Lines.failure? (files.lines path) = some e →
        transcript.outputs = heading path ::
            (Outcome.ofLines 1 (Lines.readable (files.lines path))).flatMap shown ++
              [abortLine path e] ∧
          (∀ n, successLine n ∉ transcript.outputs) ∧
          (∀ n m, failuresLine n m ∉ transcript.outputs) ∧ transcript.code = 1 := by
  intro transcript b shown failed
  have htranscript : transcript = runFile files (i.adjust config) path := run_file hload haction
  have houtcomes : b.outcomes = Outcome.ofFile files path := Batch.outcomes_runFile files {} path
  have hsummary : b.summary = _ := Batch.summary_runFile files {} path
  have hcount : failed = (Summary.ofOutcomes (Outcome.ofFile files path)).failed := by
    rw [← houtcomes]
    exact Shell.errorCount_diagnostics b.outcomes
  have hemitted : (b.outcomes.countP fun o => (shown o).any Output.isErr) = failed := by
    rw [hcount, ← houtcomes]
    exact List.countP_congr fun o _ => by rw [Shell.any_isErr_showOutcome]
  rw [← read_without_failures_iff, ← hcount]
  refine ⟨hemitted, ?_⟩
  cases hfailure : Lines.failure? (files.lines path) with
  | none =>
    rw [hfailure, Option.elim_none] at hsummary
    rw [htranscript, runFile_of_read _ hfailure, ← hcount, ← houtcomes]
    refine ⟨fun s hs => ?_, ?_, ?_, by simp⟩
    · rw [hsummary] at hs
      cases hs
      exact ⟨hcount.symm, by rw [houtcomes]; rfl⟩
    · simp only [Shell.successLine_mem_iff]
      by_cases hzero : failed = 0
      · rw [if_pos hzero, if_pos hzero]
        exact ⟨fun _ => rfl, fun _ => ⟨_, rfl⟩⟩
      · rw [if_neg hzero, if_neg hzero]
        exact ⟨fun ⟨n, hn⟩ => absurd hn (Shell.failuresLine_ne_successLine _ _ n), by simp⟩
    · by_cases hzero : failed = 0 <;> simp [hzero]
  | some e =>
    rw [hfailure, Option.elim_some] at hsummary
    rw [htranscript, runFile_of_broken _ hfailure]
    have hsuccess (n : Nat) : abortLine path e ≠ successLine n := Shell.abortLine_ne_line path e _
    have hfailures (n m : Nat) : abortLine path e ≠ failuresLine n m :=
      Shell.abortLine_ne_line path e _
    simp only [Shell.successLine_mem_iff, Shell.failuresLine_mem_iff]
    refine ⟨fun s hs => ?_, by simp [hsuccess], by simp, fun e' he => ?_⟩
    · rw [hsummary] at hs
      contradiction
    · cases he
      exact ⟨rfl, hsuccess, hfailures, trivial⟩

/-- A value, a failure, and then bytes that are no text: both counts are one, and so is the code. -/
theorem file_output_agrees_with_code_of_broken_file :
    let files : Files := ⟨fun _ => .ok [0x37, 0x0A, 0x31, 0x2F, 0x30, 0x0A, 0xFF, 0x0A, 0x32],
      fun _ => true⟩
    let i : Invocation := { action := .file ['a'], noColor := true }
    let transcript := run files {} [] i
    let b := Batch.runFile files {} ['a']
    let shown := showOutcome { color := false }
    Config.load files i.config {} = .ok {} ∧ i.action = .file ['a'] ∧
      Lines.failure? (files.lines ['a']) = some .notUtf8 ∧ b.outcomes.length = 2 ∧
      (b.outcomes.countP fun o => (shown o).any Output.isErr) = 1 ∧
      (Shell.diagnostics b.outcomes).errorCount = 1 ∧
      transcript.outputs =
        heading ['a'] :: b.outcomes.flatMap shown ++ [abortLine ['a'] .notUtf8] ∧
      (∀ n, successLine n ∉ transcript.outputs) ∧ transcript.code = 1 := by
  intro files i transcript b shown
  have hbroken : Lines.failure? (files.lines ['a']) = some .notUtf8 := by decide +kernel
  have hfailed : (Shell.diagnostics b.outcomes).errorCount = 1 := by decide +kernel
  obtain ⟨hcount, -, -, -, hshown⟩ := file_output_agrees_with_code files {} [] i rfl rfl
  obtain ⟨houtputs, hsuccess, -, hcode⟩ := hshown .notUtf8 hbroken
  have houtcomes : b.outcomes = Outcome.ofFile files ['a'] :=
    Batch.outcomes_runFile files {} ['a']
  refine ⟨rfl, rfl, hbroken, by decide +kernel, hcount.trans hfailed, hfailed, ?_, hsuccess, hcode⟩
  rw [houtcomes]
  exact houtputs

end Program
end Abacus
