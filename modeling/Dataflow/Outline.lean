/-!
# Outlines

An outline is a tree of labels.  As text it has one line per node, indented by
two blanks for each level, a node before its branches.
-/

namespace Dataflow

inductive Outline where
  | node (label : String) (branches : List Outline)
  deriving Inhabited

namespace Outline

/-- A node without branches. -/
def leaf (label : String) : Outline := .node label []

/-- Two blanks for each level. -/
def indent (level : Nat) : String :=
  String.ofList (List.replicate (2 * level) ' ')

mutual

/-- The text `out` followed by the lines of an outline at a level. -/
def writeOnto (out : String) (level : Nat) : Outline → String
  | .node label branches =>
    writeAllOnto (out ++ indent level ++ label ++ "\n") (level + 1) branches

/-- The text `out` followed by the lines of some outlines at a level. -/
def writeAllOnto (out : String) (level : Nat) : List Outline → String
  | [] => out
  | outline :: rest => writeAllOnto (outline.writeOnto out level) level rest

end

def render (outline : Outline) : String :=
  outline.writeOnto "" 0

end Outline

end Dataflow
