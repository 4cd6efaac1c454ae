import Abacus.Batch
import Abacus.Command
import Abacus.Config
import Abacus.Diagnostic.Snippet
/-!
What the program shows: results, histories, failures and the lines of a session at its prompt.

All of it goes to a file or a pipe. Output to a terminal is left out: there the banner, the results
and the lines about a file are in bold or in colour as well, unless the configuration forbids it.
-/

namespace Abacus

/-- A piece of text written to one of the two output streams. -/
inductive Output where
  | out (text : List Char)
  | err (text : List Char)
deriving DecidableEq, Repr

namespace Output

def outText : Output → List Char
  | out text => text
  | err _ => []

def errText : Output → List Char
  | out _ => []
  | err text => text

def line (text : List Char) : Output :=
  out (text ++ ['\n'])

end Output

namespace Shell

def banner : List Output :=
  [.line "🧮 Calcite 计算器".toList,
    .line "  函数:   sqrt(x), abs(x), power(base, exponent), round(x)".toList,
    .line "  运算符: + - * / % ^  (^ 右结合，一元负号优先于 ^)".toList,
    .line "  命令:   history 查看历史 | file <路径> 批量计算 | help 帮助 | exit 退出".toList]

def farewell : List Output :=
  [.line "👋 再见!".toList]

/--
Off a terminal only drawings are in colour, and only if the configuration wants it. The colours that
a listing has on a terminal are left out.
-/
def palette (config : Config) : Palette :=
  ⟨false, config.color⟩

/-- A result, without the colours that it has on a terminal. -/
def showEvaluation (config : Config) (e : Evaluation) : List Output :=
  (if config.showNormalized then [.line (' ' :: ' ' :: e.normalized)] else []) ++
    [.line ('=' :: ' ' :: e.formatted)]

def showFailure (config : Config) (input : List Char) (e : Failure) : List Output :=
  [.err (e.diagnostic.renderWith (palette config) input)]

def showResult (config : Config) (input : List Char) : Except Failure Evaluation → List Output
  | .ok e => showEvaluation config e
  | .error e => showFailure config input e

def showHistory (history : History) : List Output :=
  if history.isEmpty then [.line "📭 历史为空".toList]
  else .line "📜 计算历史:".toList :: history.map fun r => .line r.text

/-- The warning about a command that needs a path and has none. -/
def missingPath : Diagnostic where
  level := .warning
  message := "missing file path".toList
  help := some "file <path>".toList

def showWarning (config : Config) (d : Diagnostic) : List Output :=
  [.err (d.render (palette config))]

/-! ## Files -/

/-- A line of a file and its result, without the colours that they have on a terminal. -/
def showOutcome (config : Config) (o : Outcome) : List Output :=
  .line ("Processing: ".toList ++ o.input) :: showResult config o.input o.result

/-- The diagnostics of the lines that failed. -/
def diagnostics (outcomes : List Outcome) : Diagnostics :=
  outcomes.foldl (fun ds o =>
    match o.result with
    | .ok _ => ds
    | .error e => ds.add e.diagnostic) []

/-- The last line about a file: how many lines there were, or why it could not be read to its end. -/
def showSummary (path : List Char) (b : Batch) : Output :=
  let ds := diagnostics b.outcomes
  match b.summary with
  | .ok s =>
      if ds.hasErrors then
        .line ("⚠️  完成 ".toList ++ natText s.evaluated ++ " 行，其中 ".toList ++
          natText ds.errorCount ++ " 行失败".toList)
      else .line ("✅ 完成 ".toList ++ natText s.evaluated ++ " 行".toList)
  | .error e => .err ("❌ ".toList ++ Batch.fileError path e ++ ['\n'])

def showBatch (config : Config) (path : List Char) (b : Batch) : List Output :=
  .line ("📂 批量计算 ".toList ++ path ++ " ...".toList) ::
    b.outcomes.flatMap (showOutcome config) ++ [showSummary path b]

/-! ## The prompt -/

/-- What a command shows, and the session after it. -/
def execute (files : Files) (config : Config) (session : Session) :
    Command → List Output × Session
  | .exit | .blank => ([], session)
  | .help => (banner, session)
  | .history => (showHistory session.history, session)
  | .fileMissingPath => (showWarning config missingPath, session)
  | .file path =>
      let b := Batch.runFile files session path
      (showBatch config path b, b.session)
  | .evaluate expression =>
      let (result, session) := session.evaluate expression
      (showResult config expression result, session)

/-- What one line at the prompt leads to: another line is asked for, or the session ends. -/
inductive Turn where
  | next (outputs : List Output) (session : Session)
  | over (outputs : List Output) (failure : Option ReadError)

/-- The turn that a line of the input gives. Input that cannot be read ends the session without a farewell. -/
def turn (files : Files) (config : Config) (session : Session) : Line → Turn
  | .error e => .over [] (some e)
  | .ok line =>
      match Command.ofLine line with
      | .exit => .over farewell none
      | command =>
          let (outputs, session) := execute files config session command
          .next outputs session

/-- All that was shown at the prompt, the session at its end, and why the input broke off if it did. -/
structure Dialogue where
  outputs : List Output
  session : Session
  failure : Option ReadError := none

/-- Take the lines one by one, up to the command to exit or the end of the input. -/
def converse (files : Files) (config : Config) (session : Session) : List Line → Dialogue
  | [] => ⟨farewell, session, none⟩
  | line :: lines =>
      match turn files config session line with
      | .over outputs failure => ⟨outputs, session, failure⟩
      | .next outputs session =>
          let rest := converse files config session lines
          { rest with outputs := outputs ++ rest.outputs }

/-- A session at the prompt from its beginning. -/
def run (files : Files) (config : Config) (lines : List Line) : Dialogue :=
  let dialogue := converse files config {} lines
  { dialogue with outputs := (if config.banner then banner else []) ++ dialogue.outputs }

end Shell
end Abacus
