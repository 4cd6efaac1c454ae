import Abacus.Toml.Value
/-!
Adding to the tables of a document.
-/

namespace Abacus
namespace Toml

/--
Change the table at the end of a path. Tables that are missing on the way are made. A dotted key
may not pass through a table that has a header, and nothing passes through one in braces; of the
tables with one header the last is meant.
-/
def modifyAt (isDottedKey : Bool) (origin : Origin) (entries : Entries)
    (change : Origin → Entries → Except Error Entries) :
    List (List Char) → Except Error Entries
  | [] => change origin entries
  | key :: path =>
      match entries.find? key with
      | none => do
          let origin : Origin := if isDottedKey then .dotted else .implied
          let inner ← modifyAt isDottedKey origin [] change path
          .ok (entries.add key (.table origin inner))
      | some (.table origin inner) =>
          if origin = .inline then .error (.notATable key)
          else if isDottedKey ∧ origin = .written then .error (.duplicateKey key)
          else do
            let inner ← modifyAt isDottedKey origin inner change path
            .ok (entries.replace key (.table origin inner))
      | some (.tables rows) =>
          match rows.getLast? with
          | some (.table origin inner) => do
              let inner ← modifyAt isDottedKey origin inner change path
              .ok (entries.replace key (.tables (rows.dropLast ++ [.table origin inner])))
          | _ => .error (.notATable key)
      | some _ => .error (.notATable key)

/-- A key joined by points: the keys before the last, and the last. -/
def splitPath (path : List (List Char)) : List (List Char) × List Char :=
  (path.dropLast, path.getLast?.getD [])

/-- Add a value under a dotted key. The table that takes it must come from the same kind of key. -/
def addPair (origin : Origin) (entries : Entries) (path : List (List Char)) (value : Value) :
    Except Error Entries :=
  let (before, last) := splitPath path
  modifyAt true origin entries (fun origin entries =>
    if (origin == .dotted) == before.isEmpty then .error (.duplicateKey last)
    else if (entries.find? last).isSome then .error (.duplicateKey last)
    else .ok (entries.add last value)) before

/-- Open the table of a header, which may be implied already but not written. -/
def openTable (document : Entries) (path : List (List Char)) : Except Error Entries :=
  let (before, last) := splitPath path
  modifyAt false .written document (fun _ entries =>
    match entries.find? last with
    | none => .ok (entries.add last (.table .written []))
    | some (.table .implied inner) => .ok (entries.replace last (.table .written inner))
    | some _ => .error (.duplicateKey last)) before

/-- Open one more of the tables with a header in double brackets. -/
def openRow (document : Entries) (path : List (List Char)) : Except Error Entries :=
  let (before, last) := splitPath path
  modifyAt false .written document (fun _ entries =>
    match entries.find? last with
    | none => .ok (entries.add last (.tables [.table .written []]))
    | some (.tables rows) => .ok (entries.replace last (.tables (rows ++ [.table .written []])))
    | some _ => .error (.duplicateKey last)) before

/-- Add a value under a dotted key inside the table of a header. -/
def addPairAt (document : Entries) (header path : List (List Char)) (value : Value) :
    Except Error Entries :=
  modifyAt false .written document (fun origin entries => addPair origin entries path value) header

end Toml
end Abacus
