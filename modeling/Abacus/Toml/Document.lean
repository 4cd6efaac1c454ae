import Abacus.Toml.Scalar
import Abacus.Toml.Table
/-!
Reading a TOML document.
-/

namespace Abacus
namespace Toml

/-- An error if containers are nested too deep. -/
def checkDepth (depth : Nat) : Except Error Unit :=
  if depth < depthLimit then .ok () else .error .nestedTooDeep

mutual

/-- A value inside `depth` arrays and tables in braces. -/
def value : Nat → Nat → List Char → Except Error (Value × List Char)
  | 0, _, text => .error (.unexpected text)
  | fuel + 1, depth, text =>
      match string? text with
      | some read => read.map fun (s, rest) => (.string s, rest)
      | none =>
          match text with
          | '[' :: rest => do
              checkDepth (depth + 1)
              let (items, rest) ← arrayItems fuel (depth + 1) rest
              .ok (.array items, rest)
          | '{' :: rest => do
              checkDepth (depth + 1)
              let rest := skipSpaces rest
              match rest with
              | '}' :: rest => .ok (.table .inline [], rest)
              | _ =>
                  let (entries, rest) ← inlinePairs fuel (depth + 1) [] rest
                  .ok (.table .inline entries, rest)
          | _ => scalar text

/-- The items of an array up to its bracket; a comma may follow the last. -/
def arrayItems : Nat → Nat → List Char → Except Error (List Value × List Char)
  | 0, _, text => .error (.unexpected text)
  | fuel + 1, depth, text =>
      let text := skipFiller text.length text
      match text with
      | ']' :: rest => .ok ([], rest)
      | _ => do
          let (item, rest) ← value fuel depth text
          let rest := skipFiller rest.length rest
          match rest with
          | ',' :: rest =>
              let (items, rest) ← arrayItems fuel depth rest
              .ok (item :: items, rest)
          | ']' :: rest => .ok ([item], rest)
          | rest => .error (.unexpected rest)

/-- The pairs of a table in braces up to its brace; no comma may follow the last. -/
def inlinePairs : Nat → Nat → Entries → List Char → Except Error (Entries × List Char)
  | 0, _, _, text => .error (.unexpected text)
  | fuel + 1, depth, entries, text => do
      let (path, rest) ← key text
      match rest with
      | '=' :: rest =>
          let (item, rest) ← value fuel depth (skipSpaces rest)
          let entries ← addPair .inline entries path item
          match skipSpaces rest with
          | ',' :: rest => inlinePairs fuel depth entries rest
          | '}' :: rest => .ok (entries, rest)
          | rest => .error (.unexpected rest)
      | rest => .error (.unexpected rest)

end

/-- The path of a header up to its closing brackets, and the rest of the document. -/
def header (closing : List Char) (text : List Char) :
    Except Error (List (List Char) × List Char) := do
  let (path, rest) ← key text
  if closing.isPrefixOf rest then
    let rest ← endLine (rest.drop closing.length)
    .ok (path, rest)
  else .error (.unexpected rest)

/-- The lines of a document from the one on that follows `current`, the last header. -/
def lines : Nat → Entries → List (List Char) → List Char → Except Error Entries
  | 0, _, _, text => .error (.unexpected text)
  | fuel + 1, document, current, text =>
      match skipSpaces text with
      | [] => .ok document
      | '[' :: '[' :: rest => do
          let (path, rest) ← header [']', ']'] rest
          let document ← openRow document path
          lines fuel document path rest
      | '[' :: rest => do
          let (path, rest) ← header [']'] rest
          let document ← openTable document path
          lines fuel document path rest
      | rest =>
          if rest.head?.any fun c => c == '#' || c == '\n' || c == '\r' then do
            let rest ← endLine rest
            lines fuel document current rest
          else do
            let (path, rest) ← key rest
            match rest with
            | '=' :: rest =>
                let (item, rest) ← value (2 * rest.length + 2) 0 (skipSpaces rest)
                let document ← addPairAt document current path item
                let rest ← endLine rest
                lines fuel document current rest
            | rest => .error (.unexpected rest)

/-- The document that the text writes. A byte order mark before it does not count. -/
def read (text : List Char) : Except Error Entries :=
  let text :=
    match text with
    | '\ufeff' :: rest => rest
    | text => text
  lines (text.length + 1) [] [] text

end Toml
end Abacus
