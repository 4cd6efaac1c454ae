/-!
The values of a TOML document.
-/

namespace Abacus
namespace Toml

/-- How a table came into being, which decides what may still be added to it. -/
inductive Origin where
  /-- It has a header of its own, or is the document itself. -/
  | written
  /-- It stands on the way to a table that has a header. -/
  | implied
  /-- It stands on the way of a dotted key. -/
  | dotted
  /-- It is written in braces, where nothing can be added to it. -/
  | inline
deriving DecidableEq, Repr

inductive Value where
  | string (text : List Char)
  | integer (n : Int)
  | float (x : Float)
  | boolean (b : Bool)
  | datetime (text : List Char)
  | array (items : List Value)
  /-- The tables that repeated headers of one name have collected. -/
  | tables (rows : List Value)
  | table (origin : Origin) (entries : List (List Char × Value))

/-- The keys of a table and their values, in the order in which they were added. -/
abbrev Entries := List (List Char × Value)

namespace Entries

def find? (key : List Char) (entries : Entries) : Option Value :=
  entries.lookup key

def add (key : List Char) (value : Value) (entries : Entries) : Entries :=
  entries ++ [(key, value)]

/-- The entries with another value under a key that is there. -/
def replace (key : List Char) (value : Value) (entries : Entries) : Entries :=
  entries.map fun (k, v) => if k = key then (k, value) else (k, v)

end Entries

/-- Why a text is no document, or a document does not fit what is read from it. -/
inductive Error where
  | unexpected (rest : List Char)
  | unterminatedString
  | invalidEscape
  | invalidScalar (text : List Char)
  | nestedTooDeep
  | duplicateKey (key : List Char)
  | notATable (key : List Char)
  | wrongType (key : List Char)

def Error.message : Error → List Char
  | unexpected rest => "unexpected ".toList ++ (rest.head?.elim "end of document".toList fun c => [c])
  | unterminatedString => "unterminated string".toList
  | invalidEscape => "invalid escape sequence".toList
  | invalidScalar text => "invalid value ".toList ++ text
  | nestedTooDeep => "values are nested too deep".toList
  | duplicateKey key => "duplicate key ".toList ++ key
  | notATable key => "not a table: ".toList ++ key
  | wrongType key => "wrong type for ".toList ++ key

end Toml
end Abacus
