import Dataflow.Outline
import Dataflow.Program.Basic

/-!
# The outline of a program

Every statement, expression, pattern and name of a program is a node of its
outline, labelled with what it is.  Names and literals stand between single
quotes as they are, without any escaping.
-/

namespace Dataflow

def Atom.outline : Atom → Outline
  | .identifier name => .leaf s!"Identifier '{name}'"
  | .literal text => .leaf s!"Literal '{text}'"

def Signature.outline : Signature → Outline
  | .simple name => .node "SimpleType" [(Atom.identifier name).outline]
  | .flow input output =>
    .node "FlowType" [(Atom.identifier input).outline, (Atom.identifier output).outline]

mutual

def Pattern.outline : Pattern → Outline
  | .atom value => value.outline
  | .constructor name args =>
    .node "ConstructorPattern" ((Atom.identifier name).outline :: Pattern.outlines args)

def Pattern.outlines : List Pattern → List Outline
  | [] => []
  | pattern :: rest => pattern.outline :: Pattern.outlines rest

end

def Settings.outlines (settings : Settings) : List Outline :=
  settings.entries.map fun (name, value) =>
    .node "Property" [(Atom.identifier name).outline, value.outline]

mutual

def Expr.outline : Expr → Outline
  | .atom value => value.outline
  | .flow steps => .node "FlowExpression" (Expr.outlines steps)
  | .map entries => .node "MapExpression" (Expr.entryOutlines entries)
  | .config name settings =>
    .node "ConfigExpression" ((Atom.identifier name).outline :: settings.outlines)

def Expr.outlines : List Expr → List Outline
  | [] => []
  | expr :: rest => expr.outline :: Expr.outlines rest

def Expr.entryOutlines : List (Pattern × Expr) → List Outline
  | [] => []
  | (key, value) :: rest =>
    .node "MapEntry" [key.outline, value.outline] :: Expr.entryOutlines rest

end

def Assignment.outline (assignment : Assignment) : Outline :=
  .node "Assignment" <|
    (Atom.identifier assignment.name).outline ::
      (assignment.signature.map Signature.outline).toList ++ [assignment.value.outline]

def Statement.outline (statement : Statement) : Outline :=
  match statement with
  | .empty => .leaf statement.kind
  | .importName name signature =>
    .node statement.kind [(Atom.identifier name).outline, signature.outline]
  | .exportFlow assignment => .node statement.kind [assignment.outline]
  | .assign assignment => assignment.outline

def Program.outline (program : Program) : Outline :=
  .node "Program" (program.map Statement.outline)

/-- The program as an indented tree. -/
def Program.render (program : Program) : String :=
  (Program.outline program).render

end Dataflow
