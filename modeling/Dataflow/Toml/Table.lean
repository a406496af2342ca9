import Dataflow.Toml.Item

/-!
# TOML tables

How the lines of a document make its tables.  A name is given at most once.  A
header may name a table that exists only as the parent of others, but no table
that has a header already or was made by dotted keys.  A dotted key may pass
through tables without a header of their own, and it adds to tables that dotted
keys made.  The name of a list of tables stands for its last element.
-/

namespace Dataflow.Toml

/-- One line of a document that says something. -/
inductive Line where
  /-- An entry under a dotted key. -/
  | entry (path : List String) (name : String) (item : Item)
  /-- The header of a table. -/
  | header (path : List String) (name : String)
  /-- The header of one more table in a list of tables. -/
  | element (path : List String) (name : String)

namespace Entries

/-- The entries with the item under `name` replaced, or added at the end. -/
def set (name : String) (item : Item) : Entries → Entries
  | [] => [(name, item)]
  | entry :: rest =>
    if entry.1 = name then (name, item) :: rest else entry :: set name item rest

/-- A list of tables with its last element changed. -/
def modifyLast (change : Entries → Option Entries) : List Entries → Option (List Entries)
  | [] => none
  | [last] => (change last).map ([·])
  | first :: rest => (modifyLast change rest).map (first :: ·)

/-- The entries with an item added under a dotted key. -/
def addDotted (item : Item) (name : String) : List String → Entries → Option Entries
  | [], entries =>
    match entries.lookup name with
    | some _ => none
    | none => some (entries ++ [(name, item)])
  | parent :: path, entries =>
    match entries.lookup parent with
    | none => do
      let inner ← addDotted item name path []
      return entries ++ [(parent, .table .dotted inner)]
    | some (.table .dotted inner) => do
      return set parent (.table .dotted (← addDotted item name path inner)) entries
    | some (.table .implied inner) =>
      if path.isEmpty then none
      else do return set parent (.table .implied (← addDotted item name path inner)) entries
    | some (.tables elements) =>
      if path.isEmpty then none
      else do return set parent (.tables (← modifyLast (addDotted item name path) elements)) entries
    | some _ => none

/-- The entries with those of the table that a header's parents lead to changed.
Parents that are not there yet are implied. -/
def modifyAt (change : Entries → Option Entries) : List String → Entries → Option Entries
  | [], entries => change entries
  | parent :: path, entries =>
    match entries.lookup parent with
    | none => do
      let inner ← modifyAt change path []
      return entries ++ [(parent, .table .implied inner)]
    | some (.table origin inner) => do
      return set parent (.table origin (← modifyAt change path inner)) entries
    | some (.tables elements) => do
      return set parent (.tables (← modifyLast (modifyAt change path) elements)) entries
    | some _ => none

/-- The entries with a table that a header defines. -/
def define (name : String) (entries : Entries) : Option Entries :=
  match entries.lookup name with
  | none => some (entries ++ [(name, .table .header [])])
  | some (.table .implied inner) => some (set name (.table .header inner) entries)
  | some _ => none

/-- The entries with one more element in a list of tables. -/
def append (name : String) (entries : Entries) : Option Entries :=
  match entries.lookup name with
  | none => some (entries ++ [(name, .tables [[]])])
  | some (.tables elements) => some (set name (.tables (elements ++ [[]])) entries)
  | some _ => none

/-- The entries that a list of keys and items gives. -/
def ofPairs (pairs : List (List String × String × Item)) : Option Entries :=
  pairs.foldlM (fun entries (path, name, item) => addDotted item name path entries) []

/-- The document so far, with one more line in the table under the last header,
and the path of that table. -/
def addLine (document : Entries × List String) : Line → Option (Entries × List String)
  | .entry path name item => do
    return (← modifyAt (addDotted item name path) document.2 document.1, document.2)
  | .header path name => do
    return (← modifyAt (define name) path document.1, path ++ [name])
  | .element path name => do
    return (← modifyAt (append name) path document.1, path ++ [name])

/-- The document that some lines are. -/
def ofLines (lines : List Line) : Option Entries :=
  (lines.foldlM addLine ([], [])).map Prod.fst

end Entries

end Dataflow.Toml
