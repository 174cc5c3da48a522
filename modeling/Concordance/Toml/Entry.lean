import Concordance.Toml.Basic

/-!
# Tables in the making

While a document is read, each table remembers how it came to be, because that decides how it may be
opened again:

* a table named by a header is open once;
* a table that only stands on the way to a header's table may still get its own header;
* a table made by the dots of a key takes further dotted keys of the same section, and nothing later.

A value is closed, and so is every table and array inside of it. An array of tables is open at its last
table.
-/

namespace Concordance.Toml

/-- How a table came to be. -/
inductive Origin where
  | implied
  | header
  | dotted (sectionNumber : Nat)
  deriving DecidableEq, Inhabited

/-- What stands under a key while a document is read. -/
inductive Entry where
  | value (value : Toml)
  | table (origin : Origin) (fields : List (String × Entry))
  | tables (earlier : List (List (String × Entry))) (last : List (String × Entry))
  deriving Inhabited

/-- The entries of a table. -/
abbrev Entries := List (String × Entry)

/-- Changes what stands under a key; a new key goes to the end. The change may fail. -/
def alter? (key : String) (change : Option Entry → Option Entry) : Entries → Option Entries
  | [] => (change none).map fun e => [(key, e)]
  | f :: rest =>
    if f.1 == key then (change (some f.2)).map fun e => (key, e) :: rest
    else (alter? key change rest).map (f :: ·)

/-- Changes the table at the end of a header's path. Tables that are missing on the way are implied. -/
def within? (change : Entries → Option Entries) : List String → Entries → Option Entries
  | [], entries => change entries
  | key :: path, entries =>
    alter? key (fun
      | none => (within? change path []).map (.table .implied)
      | some (.table origin fields) => (within? change path fields).map (.table origin)
      | some (.tables earlier last) => (within? change path last).map (.tables earlier)
      | some (.value _) => none) entries

/-- Whether dotted keys of a section may go through a table. -/
def Origin.admits (sectionNumber : Nat) : Origin → Bool
  | .implied => true
  | .header => false
  | .dotted n => n == sectionNumber

/-- Assigns a value to a key with dots, which has no value yet. -/
def assign? (sectionNumber : Nat) (value : Toml) : List String → Entries → Option Entries
  | [], _ => none
  | [key], entries =>
    alter? key (fun
      | none => some (.value value)
      | some _ => none) entries
  | key :: path, entries =>
    alter? key (fun
      | none => (assign? sectionNumber value path []).map (.table (.dotted sectionNumber))
      | some (.table origin fields) =>
        if origin.admits sectionNumber then
          (assign? sectionNumber value path fields).map (.table (.dotted sectionNumber))
        else none
      | some _ => none) entries

/-- Opens the table of a header: a new one, or one that was implied. -/
def open? (path : List String) (entries : Entries) : Option Entries := do
  let key ← path.getLast?
  within? (alter? key fun
    | none => some (.table .header [])
    | some (.table .implied fields) => some (.table .header fields)
    | some _ => none) path.dropLast entries

/-- Adds a table to the array of tables of a header. -/
def extend? (path : List String) (entries : Entries) : Option Entries := do
  let key ← path.getLast?
  within? (alter? key fun
    | none => some (.tables [] [])
    | some (.tables earlier last) => some (.tables (earlier ++ [last]) [])
    | some _ => none) path.dropLast entries

mutual

/-- The value that an entry has become. -/
def Entry.toValue : Entry → Toml
  | .value v => v
  | .table _ fields => .table (valuesOf fields)
  | .tables earlier last => .array (tablesOf earlier ++ [.table (valuesOf last)])

/-- The fields that entries have become. -/
def valuesOf : List (String × Entry) → List (String × Toml)
  | [] => []
  | f :: rest => fieldOf f :: valuesOf rest

/-- The field that an entry has become. -/
def fieldOf : String × Entry → String × Toml
  | (key, e) => (key, e.toValue)

/-- The tables of an array. -/
def tablesOf : List (List (String × Entry)) → List Toml
  | [] => []
  | fields :: rest => .table (valuesOf fields) :: tablesOf rest

end

/-- The table of an inline list of keys and values. -/
def inlineTable? (pairs : List (List String × Toml)) : Option Toml := do
  let entries ← pairs.foldlM (fun entries (path, v) => assign? 0 v path entries) []
  some (.table (valuesOf entries))

end Concordance.Toml
