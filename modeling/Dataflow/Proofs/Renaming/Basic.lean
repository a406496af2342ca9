import Dataflow.Proofs.Mark
import Dataflow.Program.Basic
import Mathlib.Data.List.Nodup

/-!
# Renaming

A renaming gives every name and every literal another text, and leaves all other
tokens as they are.  It never changes the role of a token.  What holds tokens is
renamed with them, and so is a program, as long as different names stay different:
the properties of a component would not keep distinct names otherwise.
-/

namespace Dataflow

/-- What becomes of names and of literals. -/
structure Renaming where
  name : String → String
  literal : String → String

variable (ρ : Renaming)

/-! ## Tokens and errors -/

namespace Token

/-- Only the text of a name or a literal changes. -/
def rename (token : Token) : Token :=
  match token.kind with
  | .identifier => { token with text := ρ.name token.text }
  | .numeral => { token with text := ρ.literal token.text }
  | _ => token

@[simp]
theorem role_rename (token : Token) : (token.rename ρ).role = token.role := by
  obtain ⟨kind, text⟩ := token
  cases kind <;> rfl

@[simp]
theorem rename_mark (m : Mark) : (mark m).rename ρ = mark m := by
  cases m <;> rfl

@[simp]
theorem rename_identifier (name : String) :
    (identifier name).rename ρ = identifier (ρ.name name) := rfl

theorem text_rename_of_identifier {token : Token} (hrole : token.role = .identifier) :
    (token.rename ρ).text = ρ.name token.text := by
  rw [eq_identifier_of_role hrole]
  rfl

theorem text_rename_of_literal {token : Token} (hrole : token.role = .literal) :
    (token.rename ρ).text = ρ.literal token.text := by
  rw [eq_literal_of_role hrole]
  rfl

end Token

def Fault.rename : Fault → Fault
  | .tooDeep limit found => .tooDeep limit (found.map (Token.rename ρ))
  | .unexpected expected found => .unexpected expected (found.rename ρ)
  | .badPropertyValue found => .badPropertyValue (found.rename ρ)
  | .missing => .missing
  | .configEnded expected => .configEnded expected
  | .danglingArrow arrow => .danglingArrow (arrow.rename ρ)
  | .importLength keyword count => .importLength (keyword.rename ρ) count

theorem Fault.found?_rename (fault : Fault) :
    (fault.rename ρ).found? = fault.found?.map (Token.rename ρ) := by
  cases fault <;> rfl

namespace SyntaxError

def rename : SyntaxError → SyntaxError
  | .inputTooLarge size limit => .inputTooLarge size limit
  | .tooManyTokens limit => .tooManyTokens limit
  | .unterminated tokens => .unterminated (tokens.map (Token.rename ρ))
  | .statement tokens fault =>
    .statement (tokens.map (Token.rename ρ)) (fault.rename ρ)

/-- The renamed error blames the renamed token. -/
theorem token?_rename (error : SyntaxError) :
    (error.rename ρ).token? = error.token?.map (Token.rename ρ) := by
  cases error with
  | inputTooLarge size limit => rfl
  | tooManyTokens limit => rfl
  | unterminated tokens => exact List.getLast?_map
  | statement tokens fault =>
      rw [token?, Option.map_or, ← List.getLast?_map, ← Fault.found?_rename]
      rfl

end SyntaxError

/-! ## Programs -/

def Atom.rename : Atom → Atom
  | .identifier name => .identifier (ρ.name name)
  | .literal text => .literal (ρ.literal text)

theorem Token.atom?_rename (token : Token) :
    (token.rename ρ).atom? = token.atom?.map (Atom.rename ρ) := by
  rw [atom?, atom?, role_rename]
  split
  · next hrole =>
    rw [text_rename_of_identifier ρ hrole]
    rfl
  · next hrole =>
    rw [text_rename_of_literal ρ hrole]
    rfl
  · rfl

def Signature.rename : Signature → Signature
  | .simple name => .simple (ρ.name name)
  | .flow input output => .flow (ρ.name input) (ρ.name output)

mutual

def Pattern.rename : Pattern → Pattern
  | .atom value => .atom (value.rename ρ)
  | .constructor name args => .constructor (ρ.name name) (Pattern.renameArgs args)

def Pattern.renameArgs : List Pattern → List Pattern
  | [] => []
  | pattern :: rest => pattern.rename :: Pattern.renameArgs rest

end

theorem Pattern.renameArgs_eq_map (args : List Pattern) :
    Pattern.renameArgs ρ args = args.map (Pattern.rename ρ) := by
  induction args with
  | nil => rfl
  | cons pattern rest ih => rw [renameArgs, ih, List.map_cons]

/-- A property of a component with its name and its value renamed. -/
def Renaming.property (property : String × Atom) : String × Atom :=
  (ρ.name property.1, property.2.rename ρ)

variable (hname : Function.Injective ρ.name)

namespace Settings

/-- Every property stays in its place. -/
def rename (settings : Settings) : Settings where
  entries := settings.entries.map ρ.property
  nodup := by
    have hnames : (settings.entries.map ρ.property).map Prod.fst =
        (settings.entries.map Prod.fst).map ρ.name := by
      rw [List.map_map, List.map_map]
      rfl
    rw [hnames]
    exact List.Nodup.map hname settings.nodup

include hname in
theorem setEntry_rename (name : String) (value : Atom) (entries : List (String × Atom)) :
    (setEntry name value entries).map ρ.property =
      setEntry (ρ.name name) (value.rename ρ) (entries.map ρ.property) := by
  induction entries with
  | nil => rfl
  | cons entry rest ih =>
      have hfirst : (ρ.property entry).1 = ρ.name name ↔ entry.1 = name :=
        hname.eq_iff
      rw [setEntry, List.map_cons, setEntry]
      by_cases heq : entry.1 = name
      · rw [if_pos heq, if_pos (hfirst.mpr heq)]
        rfl
      · rw [if_neg heq, if_neg (hfirst.not.mpr heq), List.map_cons, ih]

theorem rename_insert (settings : Settings) (name : String) (value : Atom) :
    (settings.insert name value).rename ρ hname =
      (settings.rename ρ hname).insert (ρ.name name) (value.rename ρ) :=
  ext (setEntry_rename ρ hname name value settings.entries)

theorem rename_empty : empty.rename ρ hname = empty := rfl

end Settings

mutual

def Expr.rename : Expr → Expr
  | .atom value => .atom (value.rename ρ)
  | .flow steps => .flow (Expr.renameSteps steps)
  | .map entries => .map (Expr.renameEntries entries)
  | .config name settings => .config (ρ.name name) (settings.rename ρ hname)

def Expr.renameSteps : List Expr → List Expr
  | [] => []
  | step :: rest => step.rename :: Expr.renameSteps rest

def Expr.renameEntries : List (Pattern × Expr) → List (Pattern × Expr)
  | [] => []
  | (key, value) :: rest => (key.rename ρ, value.rename) :: Expr.renameEntries rest

end

theorem Expr.renameEntries_eq_map (entries : List (Pattern × Expr)) :
    Expr.renameEntries ρ hname entries =
      entries.map (Prod.map (Pattern.rename ρ) (Expr.rename ρ hname)) := by
  induction entries with
  | nil => rfl
  | cons entry rest ih => rw [renameEntries, ih, List.map_cons, Prod.map]

def Assignment.rename (assignment : Assignment) : Assignment where
  name := ρ.name assignment.name
  signature := assignment.signature.map (Signature.rename ρ)
  value := assignment.value.rename ρ hname

def Statement.rename : Statement → Statement
  | .empty => .empty
  | .importName name signature => .importName (ρ.name name) (signature.rename ρ)
  | .exportFlow assignment => .exportFlow (assignment.rename ρ hname)
  | .assign assignment => .assign (assignment.rename ρ hname)

def Program.rename (program : Program) : Program :=
  program.map (Statement.rename ρ hname)

end Dataflow
