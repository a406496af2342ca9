import Dataflow.Proofs.Nesting

/-!
# Places

A place is where an expression stands in another expression, in a statement or in a
program, at any depth.  Any other expression can be put there, and it adds to the
depth of the whole only as much as its own height does.
-/

namespace Dataflow

mutual

/-- Where in an expression another one stands. -/
inductive Expr.Place where
  | here
  | flow (place : Expr.StepsPlace)
  | map (place : Expr.EntriesPlace)

inductive Expr.StepsPlace where
  | head (place : Expr.Place) (steps : List Expr)
  | tail (step : Expr) (place : Expr.StepsPlace)

inductive Expr.EntriesPlace where
  | head (key : Pattern) (place : Expr.Place) (entries : List (Pattern × Expr))
  | tail (entry : Pattern × Expr) (place : Expr.EntriesPlace)

end

mutual

/-- The expression with another one in the place. -/
def Expr.Place.fill : Expr.Place → Expr → Expr
  | .here, expr => expr
  | .flow place, expr => .flow (place.fill expr)
  | .map place, expr => .map (place.fill expr)

def Expr.StepsPlace.fill : Expr.StepsPlace → Expr → List Expr
  | .head place steps, expr => place.fill expr :: steps
  | .tail first place, expr => first :: place.fill expr

def Expr.EntriesPlace.fill : Expr.EntriesPlace → Expr → List (Pattern × Expr)
  | .head key place entries, expr => (key, place.fill expr) :: entries
  | .tail entry place, expr => entry :: place.fill expr

end

structure Assignment.Place where
  name : String
  signature : Option Signature
  value : Expr.Place

def Assignment.Place.fill (place : Assignment.Place) (expr : Expr) : Assignment :=
  ⟨place.name, place.signature, place.value.fill expr⟩

inductive Statement.Place where
  | exportFlow (place : Assignment.Place)
  | assign (place : Assignment.Place)

def Statement.Place.fill : Statement.Place → Expr → Statement
  | .exportFlow place, expr => .exportFlow (place.fill expr)
  | .assign place, expr => .assign (place.fill expr)

inductive Program.Place where
  | head (place : Statement.Place) (program : Program)
  | tail (statement : Statement) (place : Program.Place)

def Program.Place.fill : Program.Place → Expr → Program
  | .head place program, expr => place.fill expr :: program
  | .tail statement place, expr => statement :: place.fill expr

theorem Expr.StepsPlace.fill_ne_nil (place : Expr.StepsPlace) (expr : Expr) :
    place.fill expr ≠ [] := by
  cases place <;> exact List.cons_ne_nil _ _

theorem Expr.EntriesPlace.fill_ne_nil (place : Expr.EntriesPlace) (expr : Expr) :
    place.fill expr ≠ [] := by
  cases place <;> exact List.cons_ne_nil _ _

/-! ## Heights -/

section

variable {left right expr : Expr}

mutual

theorem Expr.Place.height_fill_le (hexpr : expr.height ≤ max left.height right.height) :
    ∀ place : Expr.Place,
      (place.fill expr).height ≤ max (place.fill left).height (place.fill right).height
  | .here => hexpr
  | .flow place => place.height_fill_le hexpr
  | .map place => by
      have hplace := place.height_fill_le hexpr
      simp only [Expr.Place.fill, Expr.height]
      omega

theorem Expr.StepsPlace.height_fill_le (hexpr : expr.height ≤ max left.height right.height) :
    ∀ place : Expr.StepsPlace, Expr.heightSteps (place.fill expr) ≤
      max (Expr.heightSteps (place.fill left)) (Expr.heightSteps (place.fill right))
  | .head place steps => by
      have hplace := place.height_fill_le hexpr
      simp only [Expr.StepsPlace.fill, Expr.heightSteps]
      omega
  | .tail step place => by
      have hplace := place.height_fill_le hexpr
      simp only [Expr.StepsPlace.fill, Expr.heightSteps]
      omega

theorem Expr.EntriesPlace.height_fill_le (hexpr : expr.height ≤ max left.height right.height) :
    ∀ place : Expr.EntriesPlace, Expr.heightEntries (place.fill expr) ≤
      max (Expr.heightEntries (place.fill left)) (Expr.heightEntries (place.fill right))
  | .head key place entries => by
      have hplace := place.height_fill_le hexpr
      simp only [Expr.EntriesPlace.fill, Expr.heightEntries]
      omega
  | .tail entry place => by
      have hplace := place.height_fill_le hexpr
      simp only [Expr.EntriesPlace.fill, Expr.heightEntries]
      omega

end

variable (hexpr : expr.height ≤ max left.height right.height)

include hexpr

theorem Statement.Place.depth_fill_le (place : Statement.Place) :
    (place.fill expr).depth ≤ max (place.fill left).depth (place.fill right).depth := by
  cases place with
  | exportFlow place | assign place =>
      have hplace := place.value.height_fill_le hexpr
      simp only [fill, Assignment.Place.fill, depth]
      omega

/-- What is no higher than expressions that fit into a place fits, too. -/
theorem Program.Place.depth_fill_lt {limit : Nat} (place : Program.Place)
    (hleft : ∀ statement ∈ place.fill left, statement.depth < limit)
    (hright : ∀ statement ∈ place.fill right, statement.depth < limit) :
    ∀ statement ∈ place.fill expr, statement.depth < limit := by
  induction place with
  | head place program =>
      obtain ⟨hleft, hprogram⟩ := List.forall_mem_cons.mp hleft
      obtain ⟨hright, -⟩ := List.forall_mem_cons.mp hright
      have hdepth := Nat.lt_of_le_of_lt (place.depth_fill_le hexpr)
        (Nat.max_lt.mpr ⟨hleft, hright⟩)
      exact List.forall_mem_cons.mpr ⟨hdepth, hprogram⟩
  | tail statement place ih =>
      obtain ⟨hstatement, hleft⟩ := List.forall_mem_cons.mp hleft
      obtain ⟨-, hright⟩ := List.forall_mem_cons.mp hright
      exact List.forall_mem_cons.mpr ⟨hstatement, ih hleft hright⟩

end

end Dataflow
