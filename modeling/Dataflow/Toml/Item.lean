/-!
# TOML items

The items of a configuration document.  A table remembers how it came to be,
because that decides what may still be added to it.  Numbers with a fraction and
points in time are kept as their source text.
-/

namespace Dataflow.Toml

inductive Scalar where
  | boolean (value : Bool)
  | integer (value : Int)
  | float (text : String)
  | string (text : String)
  | moment (text : String)
  deriving DecidableEq, Inhabited

/-- How a table came to be. -/
inductive Origin where
  /-- By a header of its own. -/
  | header
  /-- As the parent of a table with a header. -/
  | implied
  /-- By the dotted key of an entry. -/
  | dotted
  deriving DecidableEq, Inhabited

inductive Item where
  | scalar (value : Scalar)
  | array (items : List Item)
  /-- A table written between braces, to which nothing can be added. -/
  | inlineTable (entries : List (String × Item))
  | table (origin : Origin) (entries : List (String × Item))
  /-- Tables with headers of one name, in order. -/
  | tables (elements : List (List (String × Item)))
  deriving Inhabited

/-- What a table holds: items under distinct names. -/
abbrev Entries := List (String × Item)

/-- The item as a number that is not negative. -/
def Item.natural? : Item → Option Nat
  | .scalar (.integer value) => if 0 ≤ value then some value.toNat else none
  | _ => none

end Dataflow.Toml
