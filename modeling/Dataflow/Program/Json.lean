import Dataflow.Json
import Dataflow.Program.Basic

/-!
# Programs as JSON

A value of an inductive type is written as an object with one member, which is
named for the constructor, and a constructor without data as its name alone.
The settings of a component are an object in their own order; everything else
that has an order is an array.
-/

namespace Dataflow

/-- A constructor applied to its data. -/
def Json.tagged (name : String) (data : Json) : Json :=
  .object [(name, data)]

def Atom.toJson : Atom → Json
  | .identifier name => .tagged "Identifier" (.string name)
  | .literal text => .tagged "Literal" (.string text)

def Signature.toJson : Signature → Json
  | .simple name => .tagged "Simple" (.string name)
  | .flow input output =>
    .tagged "Flow" (.object [("input", .string input), ("output", .string output)])

mutual

def Pattern.toJson : Pattern → Json
  | .atom value => value.toJson
  | .constructor name args =>
    .tagged "ConstructorPattern"
      (.object [("name", .string name), ("args", .array (Pattern.toJsons args))])

def Pattern.toJsons : List Pattern → List Json
  | [] => []
  | pattern :: rest => pattern.toJson :: Pattern.toJsons rest

end

def Settings.toJson (settings : Settings) : Json :=
  .object (settings.entries.map fun (name, value) => (name, value.toJson))

mutual

def Expr.toJson : Expr → Json
  | .atom value => value.toJson
  | .flow steps => .tagged "Flow" (.object [("parts", .array (Expr.toJsons steps))])
  | .map entries => .tagged "Map" (.object [("entries", .array (Expr.entryJsons entries))])
  | .config name settings =>
    .tagged "Config" (.object [("name", .string name), ("properties", settings.toJson)])

def Expr.toJsons : List Expr → List Json
  | [] => []
  | expr :: rest => expr.toJson :: Expr.toJsons rest

def Expr.entryJsons : List (Pattern × Expr) → List Json
  | [] => []
  | (key, value) :: rest =>
    .array [key.toJson, value.toJson] :: Expr.entryJsons rest

end

def Assignment.toJson (assignment : Assignment) : Json :=
  .object [
    ("name", .string assignment.name),
    ("declared_type", (assignment.signature.map Signature.toJson).getD .null),
    ("value", assignment.value.toJson)]

def Statement.toJson (statement : Statement) : Json :=
  match statement with
  | .empty => .string statement.kind
  | .importName name signature =>
    .tagged statement.kind (.object [("name", .string name), ("ty", signature.toJson)])
  | .exportFlow assignment => .tagged statement.kind assignment.toJson
  | .assign assignment => .tagged statement.kind assignment.toJson

def Program.toJson (program : Program) : Json :=
  .array (program.map Statement.toJson)

/-- The program as compact JSON. -/
def Program.serialize (program : Program) : String :=
  (Program.toJson program).compact

end Dataflow
