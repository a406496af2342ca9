import Dataflow.Program.Settings

/-!
# Programs

A program is a list of statements.  A statement is empty, imports a name, or
assigns a name to an expression, which it may export.  An expression is an atom,
a flow of steps, a map from patterns to expressions, or a configured component.
-/

namespace Dataflow

/-- The type that is declared for a name: one type, or an input and an output. -/
inductive Signature where
  | simple (name : String)
  | flow (input output : String)
  deriving DecidableEq, Inhabited

/-- The key of a map entry. -/
inductive Pattern where
  | atom (value : Atom)
  | constructor (name : String) (args : List Pattern)
  deriving Inhabited

inductive Expr where
  | atom (value : Atom)
  | flow (steps : List Expr)
  | map (entries : List (Pattern × Expr))
  | config (name : String) (settings : Settings)
  deriving Inhabited

structure Assignment where
  name : String
  signature : Option Signature
  value : Expr
  deriving Inhabited

inductive Statement where
  | empty
  | importName (name : String) (signature : Signature)
  | exportFlow (assignment : Assignment)
  | assign (assignment : Assignment)
  deriving Inhabited

abbrev Program := List Statement

/-- What kind of statement it is, as it is shown. -/
def Statement.kind : Statement → String
  | .empty => "Empty"
  | .importName _ _ => "ImportIdentifier"
  | .exportFlow _ => "ExportFlow"
  | .assign _ => "Assignment"

/-- The expression that some steps are: a step alone is itself, and several are a
flow. -/
def Expr.ofSteps? : List Expr → Option Expr
  | [] => none
  | [step] => some step
  | steps => some (.flow steps)

/-- The expression as the key of a map entry, if it can be one. -/
def Expr.toPattern? : Expr → Option Pattern
  | .atom value => some (.atom value)
  | _ => none

/-- The expression as the value of a property, if it can be one. -/
def Expr.toAtom? : Expr → Option Atom
  | .atom value => some value
  | _ => none

end Dataflow
