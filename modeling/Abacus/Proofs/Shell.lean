import Abacus.Proofs.Command
import Abacus.Proofs.Lines
import Abacus.Proofs.Session
import Abacus.Shell
/-!
A session at the prompt from its first line to its last.

Every line adds its records to the history, whatever was typed before it. What a line shows depends
on the lines before it only through the records that they added.
-/

namespace Abacus

/-! ## Lines and files -/

/-- The text of a line that is not blank, with its value. -/
def Evaluation.ofLine? (line : List Char) : Option (List Char × Except Failure Evaluation) :=
  if line.all isBlank then none else some (trim line, ofText (trim line))

/-- What a line adds to a history is decided by its value, which a blank line does not have. -/
theorem Record.ofText?_trim (line : List Char) :
    Record.ofText? (trim line) =
      (Evaluation.ofLine? line).bind fun r => Record.ofResult? r.1 r.2 := by
  rw [Evaluation.ofLine?, all_isBlank_eq, Record.ofText?]
  by_cases hblank : (trim line).isEmpty = true
  · rw [if_pos hblank, List.isEmpty_iff.mp hblank, Evaluation.ofText_nil]
    rfl
  · rw [if_neg hblank]
    rfl

theorem Outcome.map_ofLines (number : Nat) (lines : List (List Char)) :
    ((ofLines number lines).map fun o => (o.input, o.result)) =
      lines.filterMap Evaluation.ofLine? := by
  induction lines generalizing number with
  | nil => rfl
  | cons line lines ih =>
    rw [ofLines_cons, List.map_append, ih, ofLine?, List.filterMap_cons, Evaluation.ofLine?]
    cases line.all isBlank <;> rfl

theorem Outcome.filterMap_record?_ofLines (number : Nat) (lines : List (List Char)) :
    (ofLines number lines).filterMap record? =
      lines.filterMap fun line => Record.ofText? (trim line) := by
  have hrecord : record? = (fun r => Record.ofResult? r.1 r.2) ∘ fun o => (o.input, o.result) := rfl
  rw [hrecord, ← List.filterMap_map, map_ofLines, List.filterMap_filterMap]
  exact List.filterMap_congr fun line _ => (Record.ofText?_trim line).symm

/-- What is reported about the lines of a file, up to the first that cannot be read. -/
def Outcome.ofFile (files : Files) (path : List Char) : List Outcome :=
  ofLines 1 (Lines.readable (files.lines path))

/-- The records of the lines of a file, up to the first that cannot be read. -/
def Record.ofFile (files : Files) (path : List Char) : History :=
  (Lines.readable (files.lines path)).filterMap fun line => Record.ofText? (trim line)

namespace Batch

variable (files : Files) (session : Session) (path : List Char)

theorem runFile_eq :
    runFile files session path =
      ⟨Outcome.ofFile files path, ⟨session.history ++ Record.ofFile files path⟩,
        (Lines.failure? (files.lines path)).elim
          (.ok (Summary.ofOutcomes (Outcome.ofFile files path))) .error⟩ := by
  rw [runFile_eq_run, run, runFrom_eq, Outcome.filterMap_record?_ofLines, Summary.foldl_count]
  simp only [Nat.zero_add]
  rfl

theorem outcomes_runFile : (runFile files session path).outcomes = Outcome.ofFile files path := by
  rw [runFile_eq]

theorem session_runFile :
    (runFile files session path).session = ⟨session.history ++ Record.ofFile files path⟩ := by
  rw [runFile_eq]

theorem summary_runFile :
    (runFile files session path).summary =
      (Lines.failure? (files.lines path)).elim
        (.ok (Summary.ofOutcomes (Outcome.ofFile files path))) .error := by
  rw [runFile_eq]

end Batch

namespace Shell

/-! ## One line -/

/-- What a line at the prompt adds to the history. -/
def recordsOf (files : Files) (line : List Char) : History :=
  match Command.ofLine line with
  | .evaluate _ => (Record.ofText? (trim line)).toList
  | .file path => Record.ofFile files path
  | .exit | .history | .help | .blank | .fileMissingPath => []

/-- What a line at the prompt shows when these are the records so far. -/
def shownAt (files : Files) (config : Config) (records : History) (line : List Char) :
    List Output :=
  (execute files config ⟨records⟩ (Command.ofLine line)).1

theorem session_execute (files : Files) (config : Config) (session : Session) (line : List Char) :
    (execute files config session (Command.ofLine line)).2 =
      ⟨session.history ++ recordsOf files line⟩ := by
  rw [recordsOf]
  cases h : Command.ofLine line with
  | evaluate expression =>
    obtain rfl := Command.eq_trim_of_ofLine_eq_evaluate h
    exact session.snd_evaluate_trim line
  | file path => exact Batch.session_runFile files session path
  | exit | history | help | blank | fileMissingPath => simp [execute]

/-- Whether the line asks to end the session. -/
def exits (line : List Char) : Bool :=
  sameLetters (trim line) "exit".toList

theorem exits_eq_false {line : List Char} (h : Command.ofLine line ≠ .exit) : exits line = false :=
  Bool.eq_false_iff.mpr fun hexit => h (Command.ofLine_eq_exit_iff.mpr hexit)

/-- A line either ends the session or is executed. -/
theorem turn_ok (files : Files) (config : Config) (session : Session) (line : List Char) :
    turn files config session (.ok line) =
      if exits line then .over farewell none
      else .next (shownAt files config session.history line)
        ⟨session.history ++ recordsOf files line⟩ := by
  have hsession := session_execute files config session line
  by_cases hexit : exits line = true
  · rw [if_pos hexit, turn, Command.ofLine_eq_exit_iff.mpr hexit]
  · have hne : Command.ofLine line ≠ .exit := fun h => hexit (Command.ofLine_eq_exit_iff.mp h)
    rw [if_neg hexit, turn, ← hsession, shownAt]
    cases h : Command.ofLine line with
    | exit => contradiction
    | _ => rfl

/-! ## All lines -/

/-- What the lines show one after another, the first of them after these records. -/
def shown (files : Files) (config : Config) : History → List (List Char) → List Output
  | _, [] => []
  | records, line :: lines =>
      shownAt files config records line ++
        shown files config (records ++ recordsOf files line) lines

theorem shown_append (files : Files) (config : Config) (records : History)
    (first second : List (List Char)) :
    shown files config records (first ++ second) =
      shown files config records first ++
        shown files config (records ++ first.flatMap (recordsOf files)) second := by
  induction first generalizing records with
  | nil => simp [shown]
  | cons line first ih =>
    rw [List.cons_append, shown, shown, ih, List.flatMap_cons, List.append_assoc, List.append_assoc]

/-- The lines before the first that asks to exit. -/
def heard (lines : List (List Char)) : List (List Char) :=
  lines.takeWhile fun line => !exits line

theorem converse_eq (files : Files) (config : Config) (session : Session)
    (lines : List (List Char)) :
    converse files config session (lines.map .ok) =
      ⟨shown files config session.history (heard lines) ++ farewell,
        ⟨session.history ++ (heard lines).flatMap (recordsOf files)⟩, none⟩ := by
  -- The session is general: the rest of the lines starts with the records of the first.
  induction lines generalizing session with
  | nil => simp [converse, heard, shown]
  | cons line lines ih =>
    rw [List.map_cons, converse, turn_ok, heard, List.takeWhile_cons]
    by_cases hexit : exits line = true
    · simp only [hexit, if_true, Bool.not_true, Bool.false_eq_true, if_false]
      rw [shown, List.flatMap_nil, List.append_nil, List.nil_append]
    · simp only [hexit, if_false, Bool.false_eq_true, Bool.not_false, if_true, ih]
      rw [← heard, shown, List.flatMap_cons, List.append_assoc, List.append_assoc]

/-- What stands before the first line. -/
def opening (config : Config) : List Output :=
  if config.banner then banner else []

theorem run_eq (files : Files) (config : Config) (lines : List (List Char)) :
    run files config (lines.map .ok) =
      ⟨opening config ++ shown files config [] (heard lines) ++ farewell,
        ⟨(heard lines).flatMap (recordsOf files)⟩, none⟩ := by
  rw [run, converse_eq, opening, List.append_assoc]
  rfl

theorem heard_heard (lines : List (List Char)) : heard (heard lines) = heard lines :=
  List.takeWhile_idem

theorem shownAt_history {files : Files} {config : Config} {records : History} {line : List Char}
    (h : Command.ofLine line = .history) :
    shownAt files config records line =
      if records = [] then [.line "📭 历史为空".toList]
      else .line "📜 计算历史:".toList :: records.map fun r =>
        .line (r.input ++ " = ".toList ++ r.result) := by
  rw [shownAt, h]
  show showHistory records = _
  rw [showHistory]
  by_cases hnone : records = []
  · rw [if_pos hnone, if_pos (List.isEmpty_iff.mpr hnone)]
  · rw [if_neg hnone, if_neg (mt List.isEmpty_iff.mp hnone)]
    rfl

theorem shownAt_evaluate {files : Files} {config : Config} {records : History}
    {line expression : List Char} (h : Command.ofLine line = .evaluate expression) :
    shownAt files config records line =
      showResult config (trim line) (Evaluation.ofText (trim line)) := by
  obtain rfl := Command.eq_trim_of_ofLine_eq_evaluate h
  rw [shownAt, h]
  show showResult config (trim line) (Session.evaluate ⟨records⟩ (trim line)).1 = _
  rw [Session.fst_evaluate_trim]

/--
A session at the prompt is the same as on the lines before the first that asks to exit. The history
after them is what these lines add, one after the other. A line that asks for the history shows the
records that the lines before it have added, and nothing else.
-/
theorem run_up_to_exit (files : Files) (config : Config) (lines : List (List Char)) :
    let dialogue := run files config (lines.map .ok)
    dialogue = run files config ((heard lines).map .ok) ∧ dialogue.failure = none ∧
      dialogue.session.history = (heard lines).flatMap (recordsOf files) ∧
      dialogue.outputs = opening config ++ shown files config [] (heard lines) ++ farewell ∧
      ∀ before line after, heard lines = before ++ line :: after →
        Command.ofLine line = .history →
        let records := before.flatMap (recordsOf files)
        let listing : List Output :=
          if records = [] then [.line "📭 历史为空".toList]
          else .line "📜 计算历史:".toList :: records.map fun r =>
            .line (r.input ++ " = ".toList ++ r.result)
        dialogue.outputs =
          opening config ++ shown files config [] before ++ listing ++
            shown files config records after ++ farewell := by
  intro dialogue
  have hrun : dialogue = _ := run_eq files config lines
  refine ⟨?_, by rw [hrun], by rw [hrun], by rw [hrun], ?_⟩
  · rw [hrun, run_eq, heard_heard]
  · intro before line after hheard hline records listing
    have hrecords : recordsOf files line = [] := by rw [recordsOf, hline]
    have hshown : shown files config [] (heard lines) =
        shown files config [] before ++ (listing ++ shown files config records after) := by
      rw [hheard, shown_append, shown, shownAt_history hline, hrecords, List.append_nil,
        List.nil_append]
    rw [hrun, hshown]
    simp only [List.append_assoc]

/-- A file that breaks off at its third line, a failing path, and a command to exit in capitals. -/
theorem run_up_to_exit_of_broken_file :
    let files : Files := ⟨fun path =>
      if path = ['a'] then .ok [0x31, 0x0A, 0x2B, 0x0A, 0xFF, 0x0A, 0x32] else .error .notFound,
      fun _ => true⟩
    let before := ["1/4".toList, " File a".toList, "file b".toList, "5/0".toList]
    let after := ["file".toList, "6*7 ".toList]
    let lines := before ++ "HISTORY".toList :: after ++ ["\tEXIT".toList, "9".toList]
    let config : Config := { banner := false }
    let dialogue := run files config (lines.map .ok)
    heard lines = before ++ "HISTORY".toList :: after ∧
      Command.ofLine "HISTORY".toList = .history ∧
      dialogue = run files config ((before ++ "HISTORY".toList :: after).map .ok) ∧
      dialogue.session.history =
        [⟨"1/4".toList, "0.25".toList⟩, ⟨['1'], ['1']⟩, ⟨"6*7".toList, "42".toList⟩] ∧
      dialogue.outputs = shown files config [] before ++
        [.line "📜 计算历史:".toList, .line "1/4 = 0.25".toList, .line "1 = 1".toList] ++
        shown files config [⟨"1/4".toList, "0.25".toList⟩, ⟨['1'], ['1']⟩] after ++ farewell := by
  intro files before after lines config dialogue
  have hheard : heard lines = before ++ "HISTORY".toList :: after := by decide +kernel
  have hcommand : Command.ofLine "HISTORY".toList = .history := by decide +kernel
  have hbefore : before.flatMap (recordsOf files) =
      [⟨"1/4".toList, "0.25".toList⟩, ⟨['1'], ['1']⟩] := by
    decide +kernel
  have hall : (heard lines).flatMap (recordsOf files) =
      [⟨"1/4".toList, "0.25".toList⟩, ⟨['1'], ['1']⟩, ⟨"6*7".toList, "42".toList⟩] := by
    decide +kernel
  obtain ⟨hexit, _, hhistory, _, hlisting⟩ := run_up_to_exit files config lines
  have houtputs := hlisting before _ after hheard hcommand
  rw [hbefore] at houtputs
  exact ⟨hheard, hcommand, hheard ▸ hexit, hhistory.trans hall, houtputs⟩

/-! ## A file and its lines typed -/

/-- What a command evaluates in this session, each text with its result. -/
def evaluated (files : Files) (session : Session) :
    Command → List (List Char × Except Failure Evaluation)
  | .evaluate expression => [(expression, (session.evaluate expression).1)]
  | .file path => (Batch.runFile files session path).outcomes.map fun o => (o.input, o.result)
  | .exit | .history | .help | .blank | .fileMissingPath => []

/-- What is evaluated at the lines of a session, each line in the session that it finds. -/
def evaluations (files : Files) (config : Config) (session : Session) :
    List (List Char) → List (List Char × Except Failure Evaluation)
  | [] => []
  | line :: lines =>
      match turn files config session (.ok line) with
      | .over _ _ => []
      | .next _ next =>
          evaluated files session (Command.ofLine line) ++ evaluations files config next lines

/-- A line that is no command is evaluated unless it is blank, and its result is shown. -/
theorem plain_line (files : Files) (config : Config) (session : Session) {line : List Char}
    (h : Command.isCommand (trim line) = false) :
    evaluated files session (Command.ofLine line) = (Evaluation.ofLine? line).toList ∧
      turn files config session (.ok line) =
        .next ((Evaluation.ofLine? line).toList.flatMap fun r => showResult config r.1 r.2)
          ⟨session.history ++ (Record.ofText? (trim line)).toList⟩ := by
  have hline := Command.ofLine_of_not_isCommand h
  have hexits : exits line = false := by
    refine exits_eq_false (hline.trans_ne ?_)
    split <;> exact Command.noConfusion
  rw [turn_ok, hexits, recordsOf, Evaluation.ofLine?, all_isBlank_eq]
  by_cases hblank : (trim line).isEmpty = true
  · rw [if_pos hblank] at hline
    rw [shownAt, hline, if_pos hblank, List.isEmpty_iff.mp hblank, Record.ofText?,
      Evaluation.ofText_nil]
    exact ⟨rfl, rfl⟩
  · rw [if_neg hblank] at hline
    rw [shownAt_evaluate hline, hline, if_neg hblank, evaluated, session.fst_evaluate_trim,
      Option.toList_some, List.flatMap_singleton]
    exact ⟨rfl, rfl⟩

theorem evaluations_of_plain (files : Files) (config : Config) (session : Session)
    {lines : List (List Char)} (h : ∀ line ∈ lines, Command.isCommand (trim line) = false) :
    evaluations files config session lines = lines.filterMap Evaluation.ofLine? := by
  induction lines generalizing session with
  | nil => rfl
  | cons line lines ih =>
    rw [List.forall_mem_cons] at h
    obtain ⟨hevaluated, hturn⟩ := plain_line files config session h.1
    rw [evaluations, hturn]
    dsimp only
    rw [ih _ h.2, hevaluated, List.filterMap_cons]
    cases Evaluation.ofLine? line <;> rfl

theorem converse_of_plain (files : Files) (config : Config) (session : Session)
    {lines : List (List Char)} (h : ∀ line ∈ lines, Command.isCommand (trim line) = false) :
    converse files config session (lines.map .ok) =
      ⟨((lines.filterMap Evaluation.ofLine?).flatMap fun r => showResult config r.1 r.2) ++ farewell,
        ⟨session.history ++ lines.filterMap fun line => Record.ofText? (trim line)⟩, none⟩ := by
  induction lines generalizing session with
  | nil => simp [converse]
  | cons line lines ih =>
    rw [List.forall_mem_cons] at h
    rw [List.map_cons, converse, (plain_line files config session h.1).2]
    dsimp only
    rw [ih _ h.2, List.filterMap_cons, List.filterMap_cons]
    cases Evaluation.ofLine? line <;> cases Record.ofText? (trim line) <;> simp

/-- The first line about a file. -/
def heading (path : List Char) : Output :=
  .line ("📂 批量计算 ".toList ++ path ++ " ...".toList)

/-- What a file shows about one of its lines. -/
def shownInFile (config : Config) (r : List Char × Except Failure Evaluation) : List Output :=
  .line ("Processing: ".toList ++ r.1) :: showResult config r.1 r.2

theorem flatMap_showOutcome (config : Config) (outcomes : List Outcome) :
    outcomes.flatMap (showOutcome config) =
      (outcomes.map fun o => (o.input, o.result)).flatMap (shownInFile config) := by
  rw [List.flatMap_map]
  rfl

/-- The lines of a file decide what a command about it evaluates, shows and records. -/
theorem file_command (files : Files) (config : Config) (session : Session)
    {command path : List Char} (h : Command.ofLine command = .file path) :
    let results := (Lines.readable (files.lines path)).filterMap Evaluation.ofLine?
    evaluations files config session [command] = results ∧
      converse files config session [.ok command] =
        ⟨heading path :: results.flatMap (shownInFile config) ++
          showSummary path (Batch.runFile files session path) :: farewell,
          ⟨session.history ++ Record.ofFile files path⟩, none⟩ := by
  intro results
  have hexits : exits command = false := exits_eq_false (h.trans_ne Command.noConfusion)
  have houtcomes : (Batch.runFile files session path).outcomes.map (fun o => (o.input, o.result)) =
      results := by
    rw [Batch.outcomes_runFile, Outcome.ofFile, Outcome.map_ofLines]
  constructor
  · rw [evaluations, turn_ok, hexits]
    show evaluated files session (Command.ofLine command) ++ [] = results
    rw [List.append_nil, h, evaluated, houtcomes]
  · have hheard : heard [command] = [command] := by
      rw [heard, List.takeWhile_cons, hexits]
      rfl
    have hshown : shownAt files config session.history command =
        showBatch config path (Batch.runFile files session path) := by
      rw [shownAt, h]
      rfl
    have hconverse := converse_eq files config session [command]
    rw [hheard, shown, shown, hshown, showBatch, flatMap_showOutcome, houtcomes,
      List.flatMap_singleton, recordsOf, h] at hconverse
    simpa [heading] using hconverse

/--
A command about a file evaluates the same texts with the same results as the lines of the file
typed one by one, if the file is text and none of its lines is a command. It shows each result as it
is shown at the prompt, and it leaves the same history.
-/
theorem file_command_as_typed (files : Files) (config : Config) (session : Session)
    {command path text : List Char} {bytes : List UInt8}
    (hcommand : Command.ofLine command = .file path) (hread : files.read path = .ok bytes)
    (htext : decodeUtf8? bytes = some text)
    (hplain : ∀ line ∈ Lines.ofText text, Command.isCommand (trim line) = false) :
    let results := evaluations files config session [command]
    let atOnce := converse files config session [.ok command]
    let typed := converse files config session ((Lines.ofText text).map .ok)
    results = evaluations files config session (Lines.ofText text) ∧
      atOnce.session = typed.session ∧
      atOnce.outputs = heading path :: results.flatMap (shownInFile config) ++
        showSummary path (Batch.runFile files session path) :: farewell ∧
      typed.outputs = (results.flatMap fun r => showResult config r.1 r.2) ++ farewell := by
  intro results atOnce typed
  obtain ⟨hresults, hatOnce⟩ := file_command files config session hcommand
  have hlines : Lines.readable (files.lines path) = Lines.ofText text := by
    rw [Files.lines_eq_of_text hread htext, Lines.readable_map_ok]
  rw [Record.ofFile, hlines] at hatOnce
  rw [hlines] at hresults
  have htyped : typed = _ := converse_of_plain files config session hplain
  refine ⟨?_, ?_, ?_, ?_⟩
  · rw [evaluations_of_plain files config session hplain]
    exact hresults
  · rw [htyped]
    exact (congrArg Dialogue.session hatOnce).trans rfl
  · rw [← hresults] at hatOnce
    exact congrArg Dialogue.outputs hatOnce
  · rw [htyped]
    show _ = (results.flatMap _) ++ farewell
    rw [← hresults]

/-- Carriage returns, blank lines, a wide blank at an end, and lines that only look like commands. -/
theorem file_command_as_typed_of_mixed_endings :
    let text := "1/4\r\n\n files\u3000\nexit2\r\n7 % (2-2)\r".toList
    let files : Files := ⟨fun _ => .ok (utf8 text), fun _ => true⟩
    let session : Session := ⟨[⟨['5'], ['5']⟩]⟩
    let results := evaluations files {} session ["FILE  a".toList]
    Command.ofLine "FILE  a".toList = .file ['a'] ∧ files.read ['a'] = .ok (utf8 text) ∧
      decodeUtf8? (utf8 text) = some text ∧
      (∀ line ∈ Lines.ofText text, Command.isCommand (trim line) = false) ∧
      results = evaluations files {} session
        ["1/4".toList, [], " files\u3000".toList, "exit2".toList, "7 % (2-2)\r".toList] ∧
      results.getLast? = some ("7 % (2-2)".toList,
        .error (.moduloByZero ⟨['7'], "2 - 2".toList, ⟨0, 9⟩⟩)) ∧
      (converse files {} session [.ok "FILE  a".toList]).session =
        (converse files {} session ((Lines.ofText text).map .ok)).session := by
  intro text files session results
  have hcommand : Command.ofLine "FILE  a".toList = .file ['a'] := by decide +kernel
  have htext : decodeUtf8? (utf8 text) = some text := decodeUtf8?_eq_some_iff.mpr rfl
  have hlines : Lines.ofText text =
      ["1/4".toList, [], " files\u3000".toList, "exit2".toList, "7 % (2-2)\r".toList] := by
    decide +kernel
  have hplain : ∀ line ∈ Lines.ofText text, Command.isCommand (trim line) = false := by
    decide +kernel
  obtain ⟨hresults, hsession, -, -⟩ :=
    file_command_as_typed files {} session hcommand rfl htext hplain
  rw [hlines] at hresults
  refine ⟨hcommand, rfl, htext, hplain, hresults, ?_, hsession⟩
  decide +kernel

end Shell
end Abacus
