import CodeAtlas.Toml.Value

/-!
# Sections of a TOML document

A document defines its tables piece by piece: by a header, by the parts of a dotted key, or by being on
the way to another table.  How a table was defined decides what may still be added to it: a table on the
way may get a header later, a table made by dotted keys only further dotted keys, and a table with a
header none of both.

## Main definitions

* `CodeAtlas.Toml.Item` — a value, or a table together with how it was defined.
* `CodeAtlas.Toml.descend` — a change to the table at a path.
* `CodeAtlas.Toml.define`, `CodeAtlas.Toml.openTable`, `CodeAtlas.Toml.openElement` — the changes that
  a document asks for.
-/

namespace CodeAtlas.Toml

/-- What stands under a key while a document is read. -/
inductive Item where
  /-- A finished value. -/
  | value (v : Value)
  /-- A table; `implicit` if no header has named it, `dotted` if the parts of a key made it. -/
  | table (implicit dotted : Bool) (entries : List (String × Item))
  /-- The tables under one repeated header, the latest first. -/
  | tables (elements : List (List (String × Item)))

/-- The entries of a table while a document is read. -/
abbrev Entries := Table Item

mutual

/-- The value of an item. -/
def Item.toValue : Item → Value
  | .value v => v
  | .table _ _ entries => .table (entryValues entries)
  | .tables elements => .array (elementValues elements [])

/-- The values of some entries. -/
def entryValues : List (String × Item) → List (String × Value)
  | [] => []
  | (key, item) :: rest => (key, item.toValue) :: entryValues rest

/-- The values of some tables in the opposite order, before those of `later`. -/
def elementValues : List (List (String × Item)) → List Value → List Value
  | [], later => later
  | entries :: rest, later => elementValues rest (.table (entryValues entries) :: later)

end

/-- The entries after `change` has been applied to the table at a path.  Tables on the way are made
where they are missing.  A list of tables is entered at its latest element; the parts of a `dotted` key
do not enter a table that has a header.  The change is told whether the table at the path was made by
dotted keys. -/
def descend (dotted : Bool) (change : Bool → Entries → Option Entries) :
    List String → Bool → Entries → Option Entries
  | [], made, entries => change made entries
  | key :: path, _, entries =>
    match Table.get? key entries with
    | none =>
      (descend dotted change path dotted []).map fun inner =>
        Table.insert key (.table true dotted inner) entries
    | some (.value _) => none
    | some (.tables []) => none
    | some (.tables (latest :: before)) =>
      (descend dotted change path false latest).map fun inner =>
        Table.insert key (.tables (inner :: before)) entries
    | some (.table implicit made inner) =>
      if dotted ∧ ¬ implicit then none
      else
        (descend dotted change path made inner).map fun inner =>
          Table.insert key (.table implicit made inner) entries

/-- The entries with a value under a dotted key, given as its last part and the parts before it.  A key
is defined once, and dotted keys extend only tables that dotted keys made. -/
def define (path : List String) (key : String) (v : Value) (entries : Entries) : Option Entries :=
  descend true (fun made entries =>
    if made = path.isEmpty ∨ Table.contains key entries then none
    else some (Table.insert key (.value v) entries)) path false entries

/-- The entries after the header of a table. -/
def openTable (path : List String) (key : String) (entries : Entries) : Option Entries :=
  descend false (fun _ entries =>
    match Table.get? key entries with
    | none => some (Table.insert key (.table false false []) entries)
    | some (.table true false inner) => some (Table.insert key (.table false false inner) entries)
    | some _ => none) path false entries

/-- The entries after the header of a further element of a list of tables. -/
def openElement (path : List String) (key : String) (entries : Entries) : Option Entries :=
  descend false (fun _ entries =>
    match Table.get? key entries with
    | none => some (Table.insert key (.tables [[]]) entries)
    | some (.tables elements) => some (Table.insert key (.tables ([] :: elements)) entries)
    | some _ => none) path false entries

/-- The entries that some pairs of keys and values define, after those already there. -/
def defineAll : List (List String × Value) → Entries → Option Entries
  | [], entries => some entries
  | (key, v) :: rest, entries =>
    match key.getLast? with
    | none => none
    | some last =>
      match define key.dropLast last v entries with
      | none => none
      | some entries => defineAll rest entries

end CodeAtlas.Toml
