import Abacus.Program
/-!
The program at the command line.
-/

open Abacus

namespace CommandLine

/-- The failure to read a file, as far as it is told apart. -/
def readError (e : IO.Error) : ReadError :=
  match e with
  | .noFileOrDirectory .. => .notFound
  | .inappropriateType _ code _ =>
      if code == 21 then .isDirectory else .notDirectory
  | e => .invalidData e.toString.toList

def readFile (path : List Char) : IO (Except ReadError (List UInt8)) := do
  try
    return .ok (← IO.FS.readBinFile (String.ofList path)).toList
  catch e => return .error (readError e)

/-- Files of which just one has been looked at. -/
def onlyFile (read : Except ReadError (List UInt8)) : Files where
  read _ := read
  present _ := match read with
    | .ok _ | .error .isDirectory | .error (.invalidData _) => true
    | .error .notFound | .error .notDirectory => false

/-- The files that a line at the prompt can ask for. -/
def filesFor (line : Line) : IO Files := do
  match line.map Command.ofLine with
  | .ok (.file path) => return onlyFile (← readFile path)
  | _ => return onlyFile (.error .notFound)

def write (outputs : List Output) : IO Unit := do
  let stdout ← IO.getStdout
  let stderr ← IO.getStderr
  for output in outputs do
    match output with
    | .out text => stdout.putStr (String.ofList text)
    | .err text => stderr.putStr (String.ofList text)
  stdout.flush
  stderr.flush

/-- The bytes of the input up to the next line feed, in reverse after those already read. -/
partial def readLine (stdin : IO.FS.Stream) (reversed : List UInt8) : IO (List UInt8) := do
  match (← stdin.read 1).toList with
  | [] => return reversed.reverse
  | b :: _ => if b == 0x0A then return (b :: reversed).reverse else readLine stdin (b :: reversed)

/-- The next line of the input, if there is one. -/
def nextLine (config : Config) : IO (Option Line) := do
  let stdin ← IO.getStdin
  if ← stdin.isTty then write [.out config.prompt]
  let bytes ← readLine stdin []
  return if bytes.isEmpty then none else some (Lines.decodeTyped bytes)

def finish (t : Transcript) : IO UInt32 := do
  write t.outputs
  return UInt32.ofNat t.code

/-- The session at the prompt, line by line as it is typed. -/
partial def converse (config : Config) (session : Session) : IO UInt32 := do
  match ← nextLine config with
  | none => finish (Program.endRepl Shell.farewell none)
  | some line =>
      match Shell.turn (← filesFor line) config session line with
      | .over outputs failure => finish (Program.endRepl outputs failure)
      | .next outputs session =>
          write outputs
          converse config session

def act (config : Config) : Action → IO UInt32
  | .repl => do
      if config.banner then write Shell.banner
      converse config {}
  | .eval expression => finish (Program.runEval config expression)
  | .file path => do finish (Program.runFile (onlyFile (← readFile path)) config path)

def environment : IO Environment := do
  let config := (← IO.getEnv "CALCITE_CONFIG").map String.toList
  let home := (← IO.getEnv "HOME").map String.toList
  return { config, home }

def run (i : Invocation) : IO UInt32 := do
  let env ← environment
  let files ← match i.config.or (Config.path? env) with
    | some path => pure (onlyFile (← readFile path))
    | none => pure (onlyFile (.error .notFound))
  match Config.load files i.config env with
  | .error e => finish (Program.configFailure e)
  | .ok config => act (i.adjust config) i.action

end CommandLine

def main (arguments : List String) : IO UInt32 :=
  match Invocation.ofArguments? (arguments.map String.toList) with
  | some i => CommandLine.run i
  | none => return 2
