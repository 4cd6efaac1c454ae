import Abacus.Files
/-!
A directory held in memory.
-/

namespace Abacus

/-- The names on the way from the directory to something inside it. -/
abbrev Names := List (List Char)

/-- What a directory holds: the bytes of its files, and directories that may be empty. -/
structure Tree where
  files : List (Names × List UInt8) := []
  directories : List Names := []

namespace Tree

inductive Node where
  | file (bytes : List UInt8)
  | directory

/-- The names of a path, which may be empty where two slashes meet or one stands at an end. -/
def pathNames : List Char → Names
  | [] => [[]]
  | c :: path =>
      if c = '/' then [] :: pathNames path
      else
        match pathNames path with
        | [] => [[c]]
        | name :: names => (c :: name) :: names

/-- The directory with one more entry; a path that ends in a slash is a directory. -/
def insert (t : Tree) (path : List Char) (bytes : List UInt8) : Tree :=
  let names := (pathNames path).filter fun name => !name.isEmpty
  if path.getLast? = some '/' then { t with directories := names :: t.directories }
  else { t with files := (names, bytes) :: t.files }

/-- What the names lead to. A directory is there as soon as something is inside it. -/
def node? (t : Tree) (names : Names) : Option Node :=
  match t.files.find? fun (file, _) => file == names with
  | some (_, bytes) => some (.file bytes)
  | none =>
      let inside := t.files.any (fun (file, _) => names.isPrefixOf file) ||
        t.directories.any (fun directory => names.isPrefixOf directory)
      if names.isEmpty || inside then some .directory else none

/--
Follow the names one by one from a place in the tree, or from outside of it, where nothing is
known. A name can be followed only from a directory.
-/
def follow (t : Tree) : Option Names → Names → Except ReadError (Option Names)
  | place, [] => .ok place
  | none, name :: rest =>
      if name = [] ∨ name = ['.'] ∨ name = ['.', '.'] then follow t none rest else .error .notFound
  | some here, name :: rest =>
      match t.node? here with
      | none => .error .notFound
      | some (.file _) => .error .notDirectory
      | some .directory =>
          if name = [] ∨ name = ['.'] then follow t (some here) rest
          else if name = ['.', '.'] then
            follow t (if here.isEmpty then none else some here.dropLast) rest
          else follow t (some (here ++ [name])) rest

/-- What a path leads to. -/
def lookup (t : Tree) (path : List Char) : Except ReadError Node :=
  match path with
  | [] => .error .notFound
  | c :: _ => do
      match ← t.follow (if c = '/' then none else some []) (pathNames path) with
      | none => .ok .directory
      | some names =>
          match t.node? names with
          | some node => .ok node
          | none => .error .notFound

def read (t : Tree) (path : List Char) : Except ReadError (List UInt8) := do
  match ← t.lookup path with
  | .file bytes => .ok bytes
  | .directory => .error .isDirectory

def toFiles (t : Tree) : Files where
  read := t.read
  present path := (t.lookup path).isOk

end Tree
end Abacus
