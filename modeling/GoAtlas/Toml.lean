/-!
# TOML values

A TOML document is a table of values by key. How a table came about decides how
the rest of the document may extend it, so it is kept with the table.
-/

namespace GoAtlas.Toml

/-- How a table came about. -/
inductive Origin where
  /-- By a header, `[a]` or `[[a]]`. -/
  | header
  /-- By the header of a table inside it. -/
  | implied
  /-- By a dotted key, `a.b = …`. -/
  | dotted
  /-- Between braces. Nothing is added to it later. -/
  | inline
deriving DecidableEq, Repr

/-- A value. Numbers that are not whole, and dates and times, are kept as they are
written. -/
inductive Value where
  | text (content : String)
  | flag (value : Bool)
  | integer (value : Int)
  | float (literal : String)
  | time (literal : String)
  | list (items : List Value)
  | table (origin : Origin) (entries : List (String × Value))
  /-- A list of tables, each with a header of its own. -/
  | tables (sections : List (List (String × Value)))

/-- Values by key. -/
abbrev Entries := List (String × Value)

namespace Entries

/-- The entries with a new key. A key is given once. -/
def add (entries : Entries) (key : String) (value : Value) : Option Entries :=
  match entries.lookup key with
  | some _ => none
  | none => some (entries ++ [(key, value)])

/-- The entries with another value for a key. -/
def replace (entries : Entries) (key : String) (value : Value) : Entries :=
  entries.map fun entry => if entry.1 = key then (key, value) else entry

/-- Changes the table that a path of keys leads to; `origin` is that of the tables
made on the way. The last of a list of tables stands for the list. A dotted key
does not lead into a table with a header. -/
def change (origin : Origin) (action : Origin → Entries → Option Entries) :
    List String → Origin → Entries → Option Entries
  | [], here, entries => action here entries
  | key :: rest, _, entries =>
    match entries.lookup key with
    | none => do
      let inner ← change origin action rest origin []
      return entries ++ [(key, .table origin inner)]
    | some (.table made inner) =>
      if made = .inline ∨ origin = .dotted ∧ made = .header then none
      else do
        let inner ← change origin action rest made inner
        return entries.replace key (.table made inner)
    | some (.tables sections) => do
      let last ← sections.getLast?
      let inner ← change origin action rest .header last
      return entries.replace key (.tables (sections.dropLast ++ [inner]))
    | some _ => none

/-- Gives a value to a dotted key of a table. The tables on the way to it are
made by dotted keys, the last one in every case. -/
def assign (path : List String) (key : String) (value : Value) (here : Origin)
    (entries : Entries) : Option Entries :=
  entries.change .dotted
    (fun here entries =>
      if decide (here = .dotted) = path.isEmpty then none else entries.add key value)
    path here

/-- Opens the table of a header. A table that other headers implied is opened
once; any other table is there already. -/
def openTable (key : String) (entries : Entries) : Option Entries :=
  match entries.lookup key with
  | none => some (entries ++ [(key, .table .header [])])
  | some (.table .implied inner) => some (entries.replace key (.table .header inner))
  | some _ => none

/-- Opens one more table of a list of tables. -/
def openNext (key : String) (entries : Entries) : Option Entries :=
  match entries.lookup key with
  | none => some (entries ++ [(key, .tables [[]])])
  | some (.tables sections) => some (entries.replace key (.tables (sections ++ [[]])))
  | some _ => none

end Entries

end GoAtlas.Toml
