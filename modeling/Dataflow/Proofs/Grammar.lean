import Dataflow.Program.Basic
import Dataflow.Proofs.Mark
import Dataflow.Proofs.Properties

/-!
# The grammar of programs

Which tokens derive which part of a program, said without any reader.  A name or
a literal may have any text.  The grammar is

* program: (statement `;`)*
* statement: nothing, `import` name `:` type, `export` assignment, or assignment
* assignment: name [`:` type] `=` flow
* type: name [`->` name]
* flow: (`->`* step)+, where one step is the flow itself
* step: atom, name `(` [property (`,` property)*] `)`, or map
* map: `{` [pattern `:` flow (`,` pattern `:` flow)*] `}`
* pattern: atom, or name `(` [pattern (`,` pattern)*] `)`
* property: name `=` atom

where an atom is a name or a literal.
-/

namespace Dataflow

/-- The one token of an atom. -/
def Atom.token : Atom → Token
  | .identifier name => .identifier name
  | .literal text => .literal text

@[simp]
theorem Atom.token_ne_mark (value : Atom) (m : Token.Mark) : value.token ≠ .mark m := by
  cases value with
  | identifier name => exact Token.identifier_ne_mark name m
  | literal text => exact (Token.mark_ne_literal m text).symm

/-- One property or more, with commas between them. -/
inductive Settings.DerivesProperties : List Token → List (String × Atom) → Prop where
  | one (name : String) (value : Atom) :
      DerivesProperties [.identifier name, .mark .equals, value.token] [(name, value)]
  | cons (name : String) (value : Atom) {rest : List Token}
      {properties : List (String × Atom)} (hrest : DerivesProperties rest properties) :
      DerivesProperties
        (.identifier name :: .mark .equals :: value.token :: .mark .comma :: rest)
        ((name, value) :: properties)

/-- The tokens between the parentheses of a configured component. -/
inductive Settings.Derives : List Token → Settings → Prop where
  | empty : Derives [] .empty
  | collect {tokens : List Token} {properties : List (String × Atom)} {settings : Settings}
      (hproperties : DerivesProperties tokens properties)
      (hcollects : settings.Collects properties) : Derives tokens settings

mutual

inductive Pattern.Derives : List Token → Pattern → Prop where
  | atom (value : Atom) : Pattern.Derives [value.token] (.atom value)
  | constant (name : String) :
      Pattern.Derives [.identifier name, .mark .openParen, .mark .closeParen]
        (.constructor name [])
  | constructor (name : String) {tokens : List Token} {args : List Pattern}
      (hargs : Pattern.DerivesArgs tokens args) :
      Pattern.Derives
        (.identifier name :: .mark .openParen :: (tokens ++ [.mark .closeParen]))
        (.constructor name args)

/-- One pattern or more, with commas between them. -/
inductive Pattern.DerivesArgs : List Token → List Pattern → Prop where
  | one {tokens : List Token} {arg : Pattern} (harg : Pattern.Derives tokens arg) :
      Pattern.DerivesArgs tokens [arg]
  | cons {tokens rest : List Token} {arg : Pattern} {args : List Pattern}
      (harg : Pattern.Derives tokens arg) (hrest : Pattern.DerivesArgs rest args) :
      Pattern.DerivesArgs (tokens ++ .mark .comma :: rest) (arg :: args)

end

mutual

inductive Expr.Derives : List Token → Expr → Prop where
  | step {tokens : List Token} {step : Expr} (hsteps : Expr.DerivesSteps tokens [step]) :
      Expr.Derives tokens step
  | flow {tokens : List Token} {first second : Expr} {steps : List Expr}
      (hsteps : Expr.DerivesSteps tokens (first :: second :: steps)) :
      Expr.Derives tokens (.flow (first :: second :: steps))

/-- Steps one after the other, with any number of arrows before each of them. -/
inductive Expr.DerivesSteps : List Token → List Expr → Prop where
  | nil : Expr.DerivesSteps [] []
  | cons (arrows : Nat) {tokens rest : List Token} {step : Expr} {steps : List Expr}
      (hstep : Expr.DerivesStep tokens step) (hrest : Expr.DerivesSteps rest steps) :
      Expr.DerivesSteps (List.replicate arrows (.mark .arrow) ++ (tokens ++ rest))
        (step :: steps)

inductive Expr.DerivesStep : List Token → Expr → Prop where
  | atom (value : Atom) : Expr.DerivesStep [value.token] (.atom value)
  | config (name : String) {tokens : List Token} {settings : Settings}
      (hsettings : Settings.Derives tokens settings) :
      Expr.DerivesStep
        (.identifier name :: .mark .openParen :: (tokens ++ [.mark .closeParen]))
        (.config name settings)
  | map {tokens : List Token} {entries : List (Pattern × Expr)}
      (hmap : Expr.DerivesMap tokens entries) : Expr.DerivesStep tokens (.map entries)

inductive Expr.DerivesMap : List Token → List (Pattern × Expr) → Prop where
  | empty : Expr.DerivesMap [.mark .openBrace, .mark .closeBrace] []
  | entries {tokens : List Token} {entries : List (Pattern × Expr)}
      (hentries : Expr.DerivesEntries tokens entries) :
      Expr.DerivesMap (.mark .openBrace :: (tokens ++ [.mark .closeBrace])) entries

/-- One entry or more, with commas between them. -/
inductive Expr.DerivesEntries : List Token → List (Pattern × Expr) → Prop where
  | one {keyTokens valueTokens : List Token} {key : Pattern} {value : Expr}
      (hkey : Pattern.Derives keyTokens key) (hvalue : Expr.Derives valueTokens value) :
      Expr.DerivesEntries (keyTokens ++ .mark .colon :: valueTokens) [(key, value)]
  | cons {keyTokens valueTokens rest : List Token} {key : Pattern} {value : Expr}
      {entries : List (Pattern × Expr)}
      (hkey : Pattern.Derives keyTokens key) (hvalue : Expr.Derives valueTokens value)
      (hrest : Expr.DerivesEntries rest entries) :
      Expr.DerivesEntries
        (keyTokens ++ .mark .colon :: (valueTokens ++ .mark .comma :: rest))
        ((key, value) :: entries)

end

namespace Expr

theorem DerivesSteps.single {tokens : List Token} {step : Expr}
    (hstep : DerivesStep tokens step) : DerivesSteps tokens [step] := by
  have hsteps := DerivesSteps.cons 0 hstep .nil
  rwa [List.append_nil] at hsteps

theorem DerivesStep.derives {tokens : List Token} {step : Expr}
    (hstep : DerivesStep tokens step) : Derives tokens step :=
  .step (.single hstep)

/-- Steps may have one more arrow before them. -/
theorem DerivesSteps.arrow {tokens : List Token} {step : Expr} {steps : List Expr}
    (hsteps : DerivesSteps tokens (step :: steps)) :
    DerivesSteps (.mark .arrow :: tokens) (step :: steps) := by
  cases hsteps with
  | cons arrows hstep hrest => exact .cons (arrows + 1) hstep hrest

end Expr

inductive Signature.Derives : List Token → Signature → Prop where
  | simple (name : String) : Derives [.identifier name] (.simple name)
  | flow (input output : String) :
      Derives [.identifier input, .mark .arrow, .identifier output] (.flow input output)

inductive Assignment.Derives : List Token → Assignment → Prop where
  | untyped (name : String) {tokens : List Token} {value : Expr}
      (hvalue : Expr.Derives tokens value) :
      Derives (.identifier name :: .mark .equals :: tokens) ⟨name, none, value⟩
  | typed (name : String) {typeTokens tokens : List Token} {signature : Signature}
      {value : Expr} (htype : Signature.Derives typeTokens signature)
      (hvalue : Expr.Derives tokens value) :
      Derives
        (.identifier name :: .mark .colon :: (typeTokens ++ .mark .equals :: tokens))
        ⟨name, some signature, value⟩

inductive Statement.Derives : List Token → Statement → Prop where
  | empty : Derives [] .empty
  | importName (name : String) {tokens : List Token} {signature : Signature}
      (htype : Signature.Derives tokens signature) :
      Derives (.mark .importWord :: .identifier name :: .mark .colon :: tokens)
        (.importName name signature)
  | exportFlow {tokens : List Token} {assignment : Assignment}
      (hassignment : Assignment.Derives tokens assignment) :
      Derives (.mark .exportWord :: tokens) (.exportFlow assignment)
  | assign {tokens : List Token} {assignment : Assignment}
      (hassignment : Assignment.Derives tokens assignment) :
      Derives tokens (.assign assignment)

inductive Program.Derives : List Token → Program → Prop where
  | nil : Derives [] []
  | cons {run rest : List Token} {statement : Statement} {program : Program}
      (hrun : Statement.Derives run statement) (hrest : Derives rest program) :
      Derives (run ++ .mark .semicolon :: rest) (statement :: program)

end Dataflow
