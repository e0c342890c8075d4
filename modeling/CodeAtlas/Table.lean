/-!
# Tables

A table is a list of entries with a text key, kept in strictly increasing order of the keys.
Texts are compared by their characters, which for UTF-8 is the order of their bytes.

The order makes a table canonical: two tables with the same entries are equal.

## Main definitions

* `CodeAtlas.Table.get?` — the value under a key.
* `CodeAtlas.Table.insert` — the table with a key set to a value.
* `CodeAtlas.Table.ofList` — the table of some entries, the last one of a key winning.
-/

namespace CodeAtlas

/-- Entries with text keys; every operation keeps the keys strictly increasing. -/
abbrev Table (α : Type) := List (String × α)

namespace Table

variable {α β : Type}

/-- The value under a key. -/
def get? (key : String) : Table α → Option α
  | [] => none
  | (k, v) :: rest => if k = key then some v else get? key rest

/-- The table with `key` set to `value`. -/
def insert (key : String) (value : α) : Table α → Table α
  | [] => [(key, value)]
  | (k, v) :: rest =>
    if k < key then (k, v) :: insert key value rest
    else if k = key then (key, value) :: rest
    else (key, value) :: (k, v) :: rest

/-- The table without `key`. -/
def erase (key : String) (t : Table α) : Table α := t.filter fun e => e.1 ≠ key

/-- The table has an entry for `key`. -/
def contains (key : String) (t : Table α) : Bool := (get? key t).isSome

/-- The keys, in order. -/
def keys (t : Table α) : List String := t.map Prod.fst

/-- The table of the entries, in which the last entry of a key wins. -/
def ofList (entries : List (String × α)) : Table α :=
  entries.foldl (fun t e => t.insert e.1 e.2) []

end Table

end CodeAtlas
