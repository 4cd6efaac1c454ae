import Abacus.Files
import Abacus.Toml.Document
/-!
The configuration of the program, and where it is found.
-/

namespace Abacus

structure Config where
  prompt : List Char := "> ".toList
  banner : Bool := true
  color : Bool := true
  showNormalized : Bool := false
deriving DecidableEq, Repr

/-- Where the user may have put a configuration. -/
structure Environment where
  /-- The path given for a configuration, which need not exist. -/
  config : Option (List Char) := none
  home : Option (List Char) := none

namespace Config

inductive Error where
  | unreadable (path : List Char) (cause : ReadError)
  | malformed (path : List Char) (cause : Toml.Error)

namespace Error

/-- What was being done when the error arose. -/
def context : Error → List Char
  | unreadable path _ => "reading ".toList ++ path
  | malformed path _ => "parsing ".toList ++ path

def cause : Error → List Char
  | unreadable _ cause => cause.message
  | malformed _ cause => cause.message

end Error

/--
The values of a group of settings, in the order of their names. A group is a table; an array gives
the values in their order.
-/
def group (name : List Char) (names : List (List Char)) :
    Toml.Value → Except Toml.Error (List (Option Toml.Value))
  | .table _ entries => .ok (names.map fun n => Toml.Entries.find? n entries)
  | .array items | .tables items => .ok ((List.range names.length).map fun i => items[i]?)
  | .datetime _ => .ok (names.map fun _ => none)
  | _ => .error (.wrongType name)

def textSetting (name : List Char) (default : List Char) :
    Option Toml.Value → Except Toml.Error (List Char)
  | none => .ok default
  | some (.string text) => .ok text
  | some _ => .error (.wrongType name)

def flagSetting (name : List Char) (default : Bool) :
    Option Toml.Value → Except Toml.Error Bool
  | none => .ok default
  | some (.boolean b) => .ok b
  | some _ => .error (.wrongType name)

/-- The settings of a document. What it does not set keeps its default; other keys do not count. -/
def ofDocument (document : Toml.Entries) : Except Toml.Error Config := do
  let settings (name first second : String) : Except Toml.Error (Option Toml.Value × Option Toml.Value) :=
    match document.find? name.toList with
    | none => .ok (none, none)
    | some v => do
        match ← group name.toList [first.toList, second.toList] v with
        | [a, b] => .ok (a, b)
        | _ => .ok (none, none)
  let defaults : Config := {}
  let (prompt, banner) ← settings "repl" "prompt" "banner"
  let prompt ← textSetting "prompt".toList defaults.prompt prompt
  let banner ← flagSetting "banner".toList defaults.banner banner
  let (color, showNormalized) ← settings "output" "color" "show_normalized"
  let color ← flagSetting "color".toList defaults.color color
  let showNormalized ← flagSetting "show_normalized".toList defaults.showNormalized showNormalized
  .ok { prompt, banner, color, showNormalized }

def ofFile (files : Files) (path : List Char) : Except Error Config := do
  let bytes ← (files.read path).mapError (.unreadable path)
  match decodeUtf8? bytes with
  | none => .error (.unreadable path .notUtf8)
  | some text => (Toml.read text >>= ofDocument).mapError (.malformed path)

/-- The place of the configuration in a home directory. -/
def homePath (home : List Char) : List Char :=
  let inside := ".config/calcite/config.toml".toList
  if home.isEmpty || home.getLast? == some '/' then home ++ inside else home ++ '/' :: inside

/-- The path that the environment leads to. -/
def path? (env : Environment) : Option (List Char) :=
  env.config.or (env.home.map homePath)

/-- The configuration. A path that was asked for must be there; any other may be missing. -/
def load (files : Files) (explicit : Option (List Char)) (env : Environment) :
    Except Error Config :=
  match explicit, path? env with
  | some path, _ => ofFile files path
  | none, some path => if files.present path then ofFile files path else .ok {}
  | none, none => .ok {}

end Config
end Abacus
