/-!
# Tables

A table maps keys to values and keeps the order in which its keys were first put in.

* `Table.put` — a key that is there already keeps its place and takes the new value;
* `Table.get?`, `Table.ofList`, `Table.update` — look-up and construction.
-/

namespace UriTemplate

/-- Keys with their values, in the order of the keys' first occurrence. -/
abbrev Table (κ ν : Type) := List (κ × ν)

namespace Table

variable {κ ν : Type} [BEq κ]

def get? (table : Table κ ν) (key : κ) : Option ν := List.lookup key table

def put (table : Table κ ν) (key : κ) (value : ν) : Table κ ν :=
  match table with
  | [] => [(key, value)]
  | (k, v) :: rest => if key == k then (k, value) :: rest else (k, v) :: put rest key value

/-- Puts in the entries of `new` one after another. -/
def update (table new : Table κ ν) : Table κ ν := new.foldl (fun t e => put t e.1 e.2) table

/-- The table of a list of entries; of equal keys the first place and the last value count. -/
def ofList (entries : List (κ × ν)) : Table κ ν := update [] entries

def erase (table : Table κ ν) (key : κ) : Table κ ν := table.filter fun e => !(key == e.1)

def keys (table : Table κ ν) : List κ := table.map (·.1)

end Table

end UriTemplate
