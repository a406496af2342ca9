import Dataflow.Proofs.Grammar

/-!
# Nesting

How deep the parts of a program nest.  The arguments of a constructor lie one
level below it, a map lies one level below the flow it is a step of, and its
keys and values one level below the map.  The depth of a statement is the
deepest level that reading it comes to.  Every level takes a token, so the depth
is bounded by the number of tokens.
-/

namespace Dataflow

mutual

/-- The levels below a pattern. -/
def Pattern.height : Pattern → Nat
  | .atom _ => 0
  | .constructor _ args => Pattern.heightArgs args

def Pattern.heightArgs : List Pattern → Nat
  | [] => 0
  | arg :: args => max (arg.height + 1) (Pattern.heightArgs args)

end

mutual

/-- The levels below a flow with this value. -/
def Expr.height : Expr → Nat
  | .atom _ => 0
  | .flow steps => Expr.heightSteps steps
  | .map entries => Expr.heightEntries entries + 1
  | .config _ _ => 0

def Expr.heightSteps : List Expr → Nat
  | [] => 0
  | step :: steps => max step.height (Expr.heightSteps steps)

/-- The levels below a map with these entries. -/
def Expr.heightEntries : List (Pattern × Expr) → Nat
  | [] => 0
  | (key, value) :: entries =>
    max (max key.height value.height + 1) (Expr.heightEntries entries)

end

/-- The deepest level of a statement, which itself is at level zero. -/
def Statement.depth : Statement → Nat
  | .empty => 0
  | .importName _ _ => 1
  | .assign assignment => assignment.value.height + 2
  | .exportFlow assignment => assignment.value.height + 3

mutual

theorem Pattern.Derives.height_lt_length {tokens : List Token} {pattern : Pattern} :
    Pattern.Derives tokens pattern → pattern.height < tokens.length
  | .atom value => by simp [Pattern.height]
  | .constant name => by simp [Pattern.height, Pattern.heightArgs]
  | .constructor name hargs => by
      have hle := hargs.height_le_length
      simp only [Pattern.height, List.length_cons, List.length_append]
      omega

theorem Pattern.DerivesArgs.height_le_length {tokens : List Token} {args : List Pattern} :
    Pattern.DerivesArgs tokens args → Pattern.heightArgs args ≤ tokens.length
  | .one harg => by
      have hlt := harg.height_lt_length
      simp only [Pattern.heightArgs]
      omega
  | .cons harg hrest => by
      have hlt := harg.height_lt_length
      have hle := hrest.height_le_length
      simp only [Pattern.heightArgs, List.length_append, List.length_cons]
      omega

end

mutual

theorem Expr.Derives.height_le_length {tokens : List Token} {expr : Expr} :
    Expr.Derives tokens expr → expr.height ≤ tokens.length
  | .step hsteps => by
      have hle := hsteps.height_le_length
      simp only [Expr.heightSteps] at hle
      omega
  | .flow hsteps => hsteps.height_le_length

theorem Expr.DerivesSteps.height_le_length {tokens : List Token} {steps : List Expr} :
    Expr.DerivesSteps tokens steps → Expr.heightSteps steps ≤ tokens.length
  | .nil => Nat.le_refl 0
  | .cons arrows hstep hrest => by
      have hhead := hstep.height_le_length
      have htail := hrest.height_le_length
      simp only [Expr.heightSteps, List.length_append]
      omega

theorem Expr.DerivesStep.height_le_length {tokens : List Token} {step : Expr} :
    Expr.DerivesStep tokens step → step.height ≤ tokens.length
  | .atom value => Nat.zero_le _
  | .config name hsettings => Nat.zero_le _
  | .map hmap => hmap.height_lt_length

theorem Expr.DerivesMap.height_lt_length {tokens : List Token}
    {entries : List (Pattern × Expr)} :
    Expr.DerivesMap tokens entries → Expr.heightEntries entries < tokens.length
  | .empty => by simp [Expr.heightEntries]
  | .entries hentries => by
      have hle := hentries.height_le_length
      simp only [List.length_cons, List.length_append]
      omega

theorem Expr.DerivesEntries.height_le_length {tokens : List Token}
    {entries : List (Pattern × Expr)} :
    Expr.DerivesEntries tokens entries → Expr.heightEntries entries ≤ tokens.length
  | .one hkey hvalue => by
      have hkey := hkey.height_lt_length
      have hvalue := hvalue.height_le_length
      simp only [Expr.heightEntries, List.length_append, List.length_cons]
      omega
  | .cons hkey hvalue hrest => by
      have hkey := hkey.height_lt_length
      have hvalue := hvalue.height_le_length
      have hrest := hrest.height_le_length
      simp only [Expr.heightEntries, List.length_append, List.length_cons]
      omega

end

theorem Assignment.Derives.height_le_length {tokens : List Token} {assignment : Assignment}
    (hderives : Assignment.Derives tokens assignment) :
    assignment.value.height ≤ tokens.length := by
  cases hderives with
  | untyped name hvalue =>
      have hle := hvalue.height_le_length
      simp only [List.length_cons]
      omega
  | typed name htype hvalue =>
      have hle := hvalue.height_le_length
      simp only [List.length_cons, List.length_append]
      omega

theorem Statement.Derives.depth_le_length {tokens : List Token} {statement : Statement}
    (hderives : Statement.Derives tokens statement) :
    statement.depth ≤ tokens.length + 2 := by
  cases hderives with
  | empty => exact Nat.zero_le _
  | importName name htype => simp [Statement.depth]
  | exportFlow hassignment =>
      have hle := hassignment.height_le_length
      simp only [Statement.depth, List.length_cons]
      omega
  | assign hassignment =>
      have hle := hassignment.height_le_length
      simp only [Statement.depth]
      omega

end Dataflow
