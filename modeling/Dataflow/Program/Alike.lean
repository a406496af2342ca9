import Dataflow.Program.Basic

/-!
# Programs that are alike

Two programs are alike when they differ at most in the order of the properties
of their components.  Statements, steps, map entries and the arguments of
patterns count in their order.
-/

namespace Dataflow

mutual

def Pattern.alike : Pattern → Pattern → Bool
  | .atom left, .atom right => left = right
  | .constructor leftName leftArgs, .constructor rightName rightArgs =>
    leftName = rightName && Pattern.alikeAll leftArgs rightArgs
  | _, _ => false

def Pattern.alikeAll : List Pattern → List Pattern → Bool
  | [], [] => true
  | left :: lefts, right :: rights => left.alike right && Pattern.alikeAll lefts rights
  | _, _ => false

end

mutual

def Expr.alike : Expr → Expr → Bool
  | .atom left, .atom right => left = right
  | .flow leftSteps, .flow rightSteps => Expr.alikeAll leftSteps rightSteps
  | .map leftEntries, .map rightEntries => Expr.alikeEntries leftEntries rightEntries
  | .config leftName left, .config rightName right =>
    leftName = rightName && left.alike right
  | _, _ => false

def Expr.alikeAll : List Expr → List Expr → Bool
  | [], [] => true
  | left :: lefts, right :: rights => left.alike right && Expr.alikeAll lefts rights
  | _, _ => false

def Expr.alikeEntries : List (Pattern × Expr) → List (Pattern × Expr) → Bool
  | [], [] => true
  | (leftKey, left) :: lefts, (rightKey, right) :: rights =>
    leftKey.alike rightKey && left.alike right && Expr.alikeEntries lefts rights
  | _, _ => false

end

def Assignment.alike (left right : Assignment) : Bool :=
  left.name = right.name && left.signature = right.signature && left.value.alike right.value

def Statement.alike : Statement → Statement → Bool
  | .empty, .empty => true
  | .importName leftName left, .importName rightName right =>
    leftName = rightName && left = right
  | .exportFlow left, .exportFlow right => left.alike right
  | .assign left, .assign right => left.alike right
  | _, _ => false

def Program.alike : Program → Program → Bool
  | [], [] => true
  | left :: lefts, right :: rights => left.alike right && Program.alike lefts rights
  | _, _ => false

end Dataflow
