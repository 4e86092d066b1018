/-! # Tables of named texts

A table lists names with texts in the order in which they were given. Where a
name is given twice, the later text counts.
-/

namespace Codebox

/-- Names with texts, in the order given. -/
abbrev Table := List (String × String)

namespace Table

/-- The text that counts for a name. -/
def get? (table : Table) (name : String) : Option String :=
  table.foldl (fun found entry => if entry.1 = name then some entry.2 else found) none

/-- Adds an entry to a list sorted by name, in place of an entry of that name. -/
def put (name text : String) : Table → Table
  | [] => [(name, text)]
  | (other, kept) :: rest =>
    if name < other then (name, text) :: (other, kept) :: rest
    else if name = other then (name, text) :: rest
    else (other, kept) :: put name text rest

/-- Every name once, with the text that counts, sorted by name. -/
def sorted (table : Table) : Table :=
  table.foldl (fun done entry => put entry.1 entry.2 done) []

end Table

end Codebox
