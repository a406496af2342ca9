import Dataflow.Proofs.Acceptance

/-!
# The threshold of the nesting limit

Reading counts its levels from the outside.  Here each part of a program is given
the level that it is read at, and answered with the deepest level that reading it
comes to.  A statement needs a limit above its deepest level, and a limit above
what every statement needs is all that a program asks of the nesting limit.
-/

namespace Dataflow

/-! ## The deepest level -/

mutual

/-- The deepest level of a pattern that is read at `level`. -/
def Pattern.deepest (level : Nat) : Pattern → Nat
  | .atom _ => level
  | .constructor _ args => Pattern.deepestArgs level args

/-- The deepest level of a constructor that is read at `level`: its own, and those
of its arguments. -/
def Pattern.deepestArgs (level : Nat) : List Pattern → Nat
  | [] => level
  | arg :: args => max (arg.deepest (level + 1)) (Pattern.deepestArgs level args)

end

mutual

/-- The deepest level of an expression that is read as a flow at `level`. -/
def Expr.deepest (level : Nat) : Expr → Nat
  | .atom _ => level
  | .flow steps => Expr.deepestMaps level steps
  | .map entries => max level (Expr.deepestEntries (level + 1) entries)
  | .config _ _ => level

/-- The deepest level of a flow that is read at `level`: its own, and those of the
steps that are maps. -/
def Expr.deepestMaps (level : Nat) : List Expr → Nat
  | [] => level
  | .map entries :: steps =>
    max (Expr.deepestEntries (level + 1) entries) (Expr.deepestMaps level steps)
  | _ :: steps => Expr.deepestMaps level steps

/-- The deepest level of a map that is read at `level`: its own, and those of its
keys and values. -/
def Expr.deepestEntries (level : Nat) : List (Pattern × Expr) → Nat
  | [] => level
  | (key, value) :: entries =>
    max (max (key.deepest (level + 1)) (value.deepest (level + 1)))
      (Expr.deepestEntries level entries)

end

/-- The deepest level of a statement.  A statement is read at level zero, an
assignment at the next level, or after `export` one level deeper, and its value
one level below it. -/
def Statement.need : Statement → Nat
  | .empty => 0
  | .importName _ _ => 1
  | .assign assignment => assignment.value.deepest 2
  | .exportFlow assignment => assignment.value.deepest 3

/-! ## Levels and heights -/

mutual

theorem Pattern.deepest_eq (level : Nat) :
    ∀ pattern : Pattern, pattern.deepest level = level + pattern.height
  | .atom _ => rfl
  | .constructor _ args => Pattern.deepestArgs_eq level args

theorem Pattern.deepestArgs_eq (level : Nat) :
    ∀ args : List Pattern, Pattern.deepestArgs level args = level + Pattern.heightArgs args
  | [] => rfl
  | arg :: args => by
      rw [Pattern.deepestArgs, Pattern.heightArgs, Pattern.deepest_eq (level + 1) arg,
        Pattern.deepestArgs_eq level args]
      omega

end

namespace Expr

theorem le_deepestMaps (level : Nat) (steps : List Expr) : level ≤ deepestMaps level steps := by
  induction steps with
  | nil => exact Nat.le_refl level
  | cons step steps ih =>
      cases step with
      | map entries => exact Nat.le_trans ih (Nat.le_max_right _ _)
      | atom _ | flow _ | config _ _ => exact ih

/-- A flow is as deep as the deepest of its steps, whichever steps these are. -/
theorem DerivesStep.deepestMaps_cons {tokens : List Token} {step : Expr}
    (hstep : DerivesStep tokens step) (level : Nat) (steps : List Expr) :
    deepestMaps level (step :: steps) = max (step.deepest level) (deepestMaps level steps) := by
  have hle := le_deepestMaps level steps
  cases hstep with
  | atom value => exact (Nat.max_eq_right hle).symm
  | config name hsettings => exact (Nat.max_eq_right hle).symm
  | map hmap =>
      simp only [deepestMaps, deepest]
      omega

end Expr

mutual

theorem Expr.Derives.deepest_eq {tokens : List Token} {expr : Expr} :
    Expr.Derives tokens expr → ∀ level, expr.deepest level = level + expr.height
  | .step (.cons _ hstep _), level => hstep.deepest_eq level
  | .flow hsteps, level => hsteps.deepestMaps_eq level

theorem Expr.DerivesSteps.deepestMaps_eq {tokens : List Token} {steps : List Expr} :
    Expr.DerivesSteps tokens steps →
      ∀ level, Expr.deepestMaps level steps = level + Expr.heightSteps steps
  | .nil, _ => rfl
  | .cons _ hstep hrest, level => by
      rw [hstep.deepestMaps_cons, hstep.deepest_eq level, hrest.deepestMaps_eq level,
        Expr.heightSteps]
      omega

theorem Expr.DerivesStep.deepest_eq {tokens : List Token} {step : Expr} :
    Expr.DerivesStep tokens step → ∀ level, step.deepest level = level + step.height
  | .atom _, _ => rfl
  | .config _ _, _ => rfl
  | .map hmap, level => by
      rw [Expr.deepest, hmap.deepestEntries_eq (level + 1), Expr.height]
      omega

theorem Expr.DerivesMap.deepestEntries_eq {tokens : List Token}
    {entries : List (Pattern × Expr)} :
    Expr.DerivesMap tokens entries →
      ∀ level, Expr.deepestEntries level entries = level + Expr.heightEntries entries
  | .empty, _ => rfl
  | .entries hentries, level => hentries.deepestEntries_eq level

theorem Expr.DerivesEntries.deepestEntries_eq {tokens : List Token}
    {entries : List (Pattern × Expr)} :
    Expr.DerivesEntries tokens entries →
      ∀ level, Expr.deepestEntries level entries = level + Expr.heightEntries entries
  | .one _ hvalue, level => by
      rw [Expr.deepestEntries, Pattern.deepest_eq, hvalue.deepest_eq (level + 1),
        Expr.deepestEntries, Expr.heightEntries, Expr.heightEntries]
      omega
  | .cons _ hvalue hrest, level => by
      rw [Expr.deepestEntries, Pattern.deepest_eq, hvalue.deepest_eq (level + 1),
        hrest.deepestEntries_eq level, Expr.heightEntries]
      omega

end

theorem Assignment.Derives.deepest_eq {tokens : List Token} {assignment : Assignment}
    (hderives : Assignment.Derives tokens assignment) (level : Nat) :
    assignment.value.deepest level = assignment.value.height + level := by
  cases hderives with
  | untyped name hvalue => rw [hvalue.deepest_eq, Nat.add_comm]
  | typed name htype hvalue => rw [hvalue.deepest_eq, Nat.add_comm]

/-- The deepest level that a statement is counted to is its depth. -/
theorem Statement.Derives.need_eq {tokens : List Token} {statement : Statement}
    (hderives : Statement.Derives tokens statement) : statement.need = statement.depth := by
  cases hderives with
  | empty => rfl
  | importName name htype => rfl
  | exportFlow hassignment => exact hassignment.deepest_eq 3
  | assign hassignment => exact hassignment.deepest_eq 2

/-- A flow nests as deep as the maps among its steps, however many steps it has. -/
theorem Expr.deepest_flow_le_iff {level bound : Nat} {steps : List Expr} :
    (Expr.flow steps).deepest level ≤ bound ↔
      level ≤ bound ∧
        ∀ entries, Expr.map entries ∈ steps → (Expr.map entries).deepest level ≤ bound := by
  rw [Expr.deepest]
  induction steps with
  | nil => simp [Expr.deepestMaps]
  | cons step steps ih =>
      cases step with
      | map entries =>
          simp only [Expr.deepestMaps, Expr.deepest, Nat.max_le, ih, List.mem_cons,
            Expr.map.injEq, forall_eq_or_imp]
          tauto
      | atom _ | flow _ | config _ _ =>
          simpa only [Expr.deepestMaps, List.mem_cons, reduceCtorEq, false_or] using ih

namespace Program

theorem Derives.need_eq {tokens : List Token} {program : Program}
    (hderives : Derives tokens program) :
    ∀ statement ∈ program, statement.need = statement.depth := by
  induction hderives with
  | nil => nofun
  | cons hrun hrest ih => exact List.forall_mem_cons.mpr ⟨hrun.need_eq, ih⟩

/-- What a nesting limit accepts under some larger limit, it accepts itself if it
is above the deepest level of every statement. -/
theorem ofTokens_eq_ok_iff_need {limit : Nat} {tokens : List Token} {program : Program} :
    ofTokens limit tokens = .ok program ↔
      (∃ other, ofTokens other tokens = .ok program) ∧
        ∀ statement ∈ program, statement.need < limit := by
  constructor
  · intro hread
    obtain ⟨hderives, hdepth⟩ := ofTokens_eq_ok_iff_derives.mp hread
    refine ⟨⟨limit, hread⟩, fun statement hmem => ?_⟩
    rw [hderives.need_eq statement hmem]
    exact hdepth statement hmem
  · rintro ⟨⟨other, hread⟩, hneed⟩
    obtain ⟨hderives, -⟩ := ofTokens_eq_ok_iff_derives.mp hread
    refine ofTokens_eq_ok_iff_derives.mpr ⟨hderives, fun statement hmem => ?_⟩
    rw [← hderives.need_eq statement hmem]
    exact hneed statement hmem

/-- A source is accepted exactly when it keeps to the limits on its size, its
tokens are a program under some nesting limit, and the nesting limit is above what
each statement of that program needs.  Only maps and patterns add to this need:
a component, a declared type or one more step in a flow does not. -/
theorem parse_eq_ok_iff_need (limits : Limits) (source : String) (program : Program) :
    (parse limits source = .ok program ↔
      source.utf8ByteSize ≤ limits.inputSize ∧
        (tokenize source).length ≤ limits.tokenCount ∧
        (∃ limit, ofTokens limit (tokenize source) = .ok program) ∧
        ∀ statement ∈ program, statement.need < limits.nestingDepth) ∧
    (∀ level name settings, (Expr.config name settings).deepest level = level) ∧
    (∀ level bound steps, (Expr.flow steps).deepest level ≤ bound ↔
      level ≤ bound ∧
        ∀ entries, Expr.map entries ∈ steps → (Expr.map entries).deepest level ≤ bound) ∧
    ∀ (assignment : Assignment) (signature : Option Signature),
      (Statement.assign { assignment with signature }).need =
          (Statement.assign assignment).need ∧
        (Statement.exportFlow { assignment with signature }).need =
          (Statement.exportFlow assignment).need := by
  refine ⟨?_, fun level name settings => rfl, fun level bound steps => Expr.deepest_flow_le_iff,
    fun assignment signature => ⟨rfl, rfl⟩⟩
  rw [parse_eq_ok_iff, ofTokens_eq_ok_iff_need, and_assoc]

/-- The argument of a constructor in a key: after the statement, the assignment and
its value come the map, the key and the argument. -/
example :
    (Statement.assign ⟨"x", none, .map
      [(.constructor "f" [.atom (.identifier "a")], .atom (.literal "1"))]⟩).need = 5 := by
  decide

end Program

end Dataflow
