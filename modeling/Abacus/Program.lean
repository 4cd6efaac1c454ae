import Abacus.Shell
/-!
The program: its arguments, what it does with them, and how it ends.
-/

namespace Abacus

inductive Action where
  | repl
  | eval (expression : List Char)
  | file (path : List Char)
deriving DecidableEq, Repr

/-- What the arguments ask for. -/
structure Invocation where
  action : Action := .repl
  config : Option (List Char) := none
  noColor : Bool := false
deriving DecidableEq, Repr

namespace Invocation

/-- The arguments sorted into options and the words that are none. -/
structure Sorted where
  config : Option (List Char) := none
  noColor : Bool := false
  words : List (List Char) := []

/--
After `--` every argument is a word, though none that names the command; before it one that starts
with a dash must be an option. The option for log lines, `--verbose` or `-v`, is left out together
with the log, and so are those for help and for the version: they count as unknown.
-/
def sort (s : Sorted) : List (List Char) → Option Sorted
  | [] => some s
  | arg :: rest =>
      if arg = "--".toList then
        if s.words.isEmpty && !rest.isEmpty then none else some { s with words := s.words ++ rest }
      else if arg = "--no-color".toList then sort { s with noColor := true } rest
      else if arg = "--config".toList then
        match rest with
        | path :: rest => sort { s with config := some path } rest
        | [] => none
      else if "--config=".toList.isPrefixOf arg then
        sort { s with config := some (arg.drop "--config=".toList.length) } rest
      else if arg.head? = some '-' ∧ arg ≠ ['-'] then none
      else sort { s with words := s.words ++ [arg] } rest

def action? : List (List Char) → Option Action
  | [] => some .repl
  | [command] => if command = "repl".toList then some .repl else none
  | [command, argument] =>
      if command = "eval".toList then some (.eval argument)
      else if command = "file".toList then some (.file argument)
      else none
  | _ => none

/-- The invocation that the arguments spell. -/
def ofArguments? (arguments : List (List Char)) : Option Invocation := do
  let s ← sort {} arguments
  let action ← action? s.words
  some { action, config := s.config, noColor := s.noColor }

/-- The configuration with the options of this invocation. -/
def adjust (i : Invocation) (config : Config) : Config :=
  if i.noColor then { config with color := false } else config

end Invocation

/-- All that a run of the program writes, and its exit code. -/
structure Transcript where
  outputs : List Output
  code : Nat

namespace Transcript

def out (t : Transcript) : List Char :=
  t.outputs.flatMap Output.outText

def err (t : Transcript) : List Char :=
  t.outputs.flatMap Output.errText

end Transcript

namespace Program

/-- What ends the program: what was being done, and the causes behind that. -/
def failureText (context : List Char) (causes : List (List Char)) : List Char :=
  let lines := match causes with
    | [cause] => [cause]
    | causes => causes.zipIdx.map fun (cause, i) => natText i ++ ':' :: ' ' :: cause
  "Error: ".toList ++ context ++ "\n\nCaused by:\n".toList ++
    lines.flatMap fun line => "    ".toList ++ line ++ ['\n']

def configFailure (e : Config.Error) : Transcript :=
  ⟨[.err (failureText e.context [e.cause])], 1⟩

/-- The result of one expression. -/
def runEval (config : Config) (expression : List Char) : Transcript :=
  match Evaluation.ofText expression with
  | .ok e => ⟨Shell.showEvaluation config e, 0⟩
  | .error e => ⟨Shell.showFailure config expression e, 1⟩

/-- The results of a file; the run succeeds if the whole file could be read and no line failed. -/
def runFile (files : Files) (config : Config) (path : List Char) : Transcript :=
  let b := Batch.runFile files {} path
  let succeeded := match b.summary with
    | .ok s => s.failed == 0
    | .error _ => false
  ⟨Shell.showBatch config path b, if succeeded then 0 else 1⟩

/-- How a session at the prompt ends when its input cannot be read. -/
def inputFailure (e : ReadError) : Output :=
  .err (failureText "failed to read input".toList [e.message, e.message])

/-- The end of a session at the prompt: what it shows last, and whether its input could be read. -/
def endRepl (outputs : List Output) : Option ReadError → Transcript
  | none => ⟨outputs, 0⟩
  | some e => ⟨outputs ++ [inputFailure e], 1⟩

def runRepl (files : Files) (config : Config) (lines : List Line) : Transcript :=
  let dialogue := Shell.run files config lines
  endRepl dialogue.outputs dialogue.failure

def runAction (files : Files) (config : Config) (lines : List Line) : Action → Transcript
  | .repl => runRepl files config lines
  | .eval expression => runEval config expression
  | .file path => runFile files config path

/-- A run with the files and the environment it finds, and the bytes of its input. -/
def run (files : Files) (env : Environment) (input : List UInt8) (i : Invocation) : Transcript :=
  match Config.load files i.config env with
  | .error e => configFailure e
  | .ok config => runAction files (i.adjust config) (Lines.typed input) i.action

end Program
end Abacus
