import Dataflow.Proofs.Grammar
import Dataflow.Proofs.Lexing

/-!
# Spelling programs

The canonical tokens of a program: one arrow between any two steps of a flow, one
comma between any two arguments, properties or entries, and a semicolon after
every statement.  The canonical text has one blank between any two tokens.  A
program is well formed when its names and literals are words of their kind and
its flows are flat, so that nothing of it gets lost in its spelling: its canonical
tokens derive it again, and they are tokens that a source can have.
-/

namespace Dataflow

/-! ## Canonical tokens -/

def Settings.propertiesTokens : List (String × Atom) → List Token
  | [] => []
  | [(name, value)] => [.identifier name, .mark .equals, value.token]
  | (name, value) :: next :: properties =>
    .identifier name :: .mark .equals :: value.token :: .mark .comma ::
      propertiesTokens (next :: properties)

mutual

def Pattern.tokens : Pattern → List Token
  | .atom value => [value.token]
  | .constructor name args =>
    .identifier name :: .mark .openParen :: (Pattern.argsTokens args ++ [.mark .closeParen])

def Pattern.argsTokens : List Pattern → List Token
  | [] => []
  | [arg] => arg.tokens
  | arg :: next :: args => arg.tokens ++ .mark .comma :: Pattern.argsTokens (next :: args)

end

mutual

def Expr.tokens : Expr → List Token
  | .atom value => [value.token]
  | .flow steps => Expr.stepsTokens steps
  | .map entries => .mark .openBrace :: (Expr.entriesTokens entries ++ [.mark .closeBrace])
  | .config name settings =>
    .identifier name :: .mark .openParen ::
      (Settings.propertiesTokens settings.entries ++ [.mark .closeParen])

def Expr.stepsTokens : List Expr → List Token
  | [] => []
  | [step] => step.tokens
  | step :: next :: steps => step.tokens ++ .mark .arrow :: Expr.stepsTokens (next :: steps)

def Expr.entriesTokens : List (Pattern × Expr) → List Token
  | [] => []
  | [(key, value)] => key.tokens ++ .mark .colon :: value.tokens
  | (key, value) :: next :: entries =>
    key.tokens ++ .mark .colon ::
      (value.tokens ++ .mark .comma :: Expr.entriesTokens (next :: entries))

end

def Signature.tokens : Signature → List Token
  | .simple name => [.identifier name]
  | .flow input output => [.identifier input, .mark .arrow, .identifier output]

def Assignment.tokens (assignment : Assignment) : List Token :=
  match assignment.signature with
  | none => .identifier assignment.name :: .mark .equals :: assignment.value.tokens
  | some signature =>
    .identifier assignment.name :: .mark .colon ::
      (signature.tokens ++ .mark .equals :: assignment.value.tokens)

def Statement.tokens : Statement → List Token
  | .empty => []
  | .importName name signature =>
    .mark .importWord :: .identifier name :: .mark .colon :: signature.tokens
  | .exportFlow assignment => .mark .exportWord :: assignment.tokens
  | .assign assignment => assignment.tokens

def Program.tokens : Program → List Token
  | [] => []
  | statement :: program => statement.tokens ++ .mark .semicolon :: Program.tokens program

/-- The canonical text of a program. -/
def Program.spell (program : Program) : String :=
  Token.joinTexts (Program.tokens program)

/-! ## Well-formed programs -/

/-- The name or the literal is a word of its kind. -/
def Atom.WellFormed (value : Atom) : Prop :=
  value.token.Lexical

/-- The name is a word that is an identifier. -/
def WellFormedName (name : String) : Prop :=
  (Token.identifier name).Lexical

structure Settings.WellFormed (settings : Settings) : Prop where
  distinct : settings.names.Nodup
  entries : ∀ entry ∈ settings.entries, WellFormedName entry.1 ∧ entry.2.WellFormed

mutual

def Pattern.WellFormed : Pattern → Prop
  | .atom value => value.WellFormed
  | .constructor name args => WellFormedName name ∧ Pattern.AllWellFormed args

def Pattern.AllWellFormed : List Pattern → Prop
  | [] => True
  | arg :: args => arg.WellFormed ∧ Pattern.AllWellFormed args

end

def Expr.IsFlow : Expr → Prop
  | .flow _ => True
  | _ => False

mutual

/-- A flow has two steps or more, and no flow is a step. -/
def Expr.WellFormed : Expr → Prop
  | .atom value => value.WellFormed
  | .flow steps =>
    2 ≤ steps.length ∧ (∀ step ∈ steps, ¬ step.IsFlow) ∧ Expr.AllWellFormed steps
  | .map entries => Expr.EntriesWellFormed entries
  | .config name settings => WellFormedName name ∧ settings.WellFormed

def Expr.AllWellFormed : List Expr → Prop
  | [] => True
  | step :: steps => step.WellFormed ∧ Expr.AllWellFormed steps

def Expr.EntriesWellFormed : List (Pattern × Expr) → Prop
  | [] => True
  | (key, value) :: entries =>
    key.WellFormed ∧ value.WellFormed ∧ Expr.EntriesWellFormed entries

end

def Signature.WellFormed : Signature → Prop
  | .simple name => WellFormedName name
  | .flow input output => WellFormedName input ∧ WellFormedName output

structure Assignment.WellFormed (assignment : Assignment) : Prop where
  name : WellFormedName assignment.name
  signature : ∀ signature ∈ assignment.signature, signature.WellFormed
  value : assignment.value.WellFormed

def Statement.WellFormed : Statement → Prop
  | .empty => True
  | .importName name signature => WellFormedName name ∧ signature.WellFormed
  | .exportFlow assignment => assignment.WellFormed
  | .assign assignment => assignment.WellFormed

def Program.WellFormed (program : Program) : Prop :=
  ∀ statement ∈ program, statement.WellFormed

/-! ## The grammar derives canonical tokens -/

theorem Settings.derivesProperties_tokens (property : String × Atom)
    (properties : List (String × Atom)) :
    DerivesProperties (propertiesTokens (property :: properties)) (property :: properties) := by
  induction properties generalizing property with
  | nil => exact .one property.1 property.2
  | cons next properties ih => exact .cons property.1 property.2 (ih next)

theorem Settings.derives_tokens (settings : Settings) :
    Derives (propertiesTokens settings.entries) settings := by
  have hcollects : settings.Collects settings.entries :=
    collects_iff.mpr (ofList_entries settings).symm
  cases hentries : settings.entries with
  | nil =>
      have hempty : settings = .empty := ext hentries
      rw [hempty]
      exact .empty
  | cons property properties =>
      rw [hentries] at hcollects
      exact .collect (derivesProperties_tokens property properties) hcollects

mutual

theorem Pattern.derives_tokens : ∀ pattern : Pattern, Pattern.Derives pattern.tokens pattern
  | .atom value => .atom value
  | .constructor name [] => .constant name
  | .constructor name (arg :: args) =>
      .constructor name (Pattern.derivesArgs_tokens (arg :: args) (List.cons_ne_nil arg args))

theorem Pattern.derivesArgs_tokens : ∀ args : List Pattern, args ≠ [] →
    Pattern.DerivesArgs (Pattern.argsTokens args) args
  | [], hne => absurd rfl hne
  | [arg], _ => .one arg.derives_tokens
  | arg :: next :: args, _ =>
      .cons arg.derives_tokens
        (Pattern.derivesArgs_tokens (next :: args) (List.cons_ne_nil next args))

end

mutual

theorem Expr.derives_tokens : ∀ expr : Expr, expr.WellFormed → Expr.Derives expr.tokens expr
  | .atom value, _ => (Expr.DerivesStep.atom value).derives
  | .config name settings, _ => (Expr.DerivesStep.config name settings.derives_tokens).derives
  | .map entries, hwell => (Expr.DerivesStep.map (Expr.derivesMap_tokens entries hwell)).derives
  | .flow [], hwell => absurd hwell.1 (Nat.not_succ_le_zero 1)
  | .flow [_], hwell => absurd hwell.1 (Nat.not_succ_le_self 1)
  | .flow (first :: second :: steps), hwell =>
      .flow (Expr.derivesSteps_tokens (first :: second :: steps) hwell.2.1 hwell.2.2)

theorem Expr.derivesStep_tokens : ∀ step : Expr, ¬ step.IsFlow → step.WellFormed →
    Expr.DerivesStep step.tokens step
  | .atom value, _, _ => .atom value
  | .config name settings, _, _ => .config name settings.derives_tokens
  | .map entries, _, hwell => .map (Expr.derivesMap_tokens entries hwell)
  | .flow steps, hflow, _ => absurd trivial hflow

theorem Expr.derivesSteps_tokens : ∀ steps : List Expr, (∀ step ∈ steps, ¬ step.IsFlow) →
    Expr.AllWellFormed steps → Expr.DerivesSteps (Expr.stepsTokens steps) steps
  | [], _, _ => .nil
  | [step], hflat, hwell => by
      have hstep := Expr.derivesStep_tokens step (hflat step List.mem_cons_self) hwell.1
      exact .single hstep
  | step :: next :: steps, hflat, hwell => by
      obtain ⟨hflatStep, hflatSteps⟩ := List.forall_mem_cons.mp hflat
      have hstep := Expr.derivesStep_tokens step hflatStep hwell.1
      have hsteps := Expr.derivesSteps_tokens (next :: steps) hflatSteps hwell.2
      exact .cons 0 hstep hsteps.arrow

theorem Expr.derivesMap_tokens : ∀ entries : List (Pattern × Expr),
    Expr.EntriesWellFormed entries →
      Expr.DerivesMap (.mark .openBrace :: (Expr.entriesTokens entries ++ [.mark .closeBrace]))
        entries
  | [], _ => .empty
  | entry :: entries, hwell =>
      .entries (Expr.derivesEntries_tokens (entry :: entries) (List.cons_ne_nil entry entries)
        hwell)

theorem Expr.derivesEntries_tokens : ∀ entries : List (Pattern × Expr), entries ≠ [] →
    Expr.EntriesWellFormed entries →
      Expr.DerivesEntries (Expr.entriesTokens entries) entries
  | [], hne, _ => absurd rfl hne
  | [(key, value)], _, hwell => .one key.derives_tokens (Expr.derives_tokens value hwell.2.1)
  | (key, value) :: next :: entries, _, hwell =>
      .cons key.derives_tokens (Expr.derives_tokens value hwell.2.1)
        (Expr.derivesEntries_tokens (next :: entries) (List.cons_ne_nil next entries) hwell.2.2)

end

theorem Signature.derives_tokens (signature : Signature) :
    Signature.Derives signature.tokens signature := by
  cases signature with
  | simple name => exact .simple name
  | flow input output => exact .flow input output

theorem Assignment.derives_tokens {assignment : Assignment} (hwell : assignment.WellFormed) :
    Assignment.Derives assignment.tokens assignment := by
  obtain ⟨name, signature, value⟩ := assignment
  have hvalue := Expr.derives_tokens value hwell.value
  cases signature with
  | none => exact .untyped name hvalue
  | some signature => exact .typed name signature.derives_tokens hvalue

theorem Statement.derives_tokens {statement : Statement} (hwell : statement.WellFormed) :
    Statement.Derives statement.tokens statement := by
  cases statement with
  | empty => exact .empty
  | importName name signature => exact .importName name signature.derives_tokens
  | exportFlow assignment => exact .exportFlow (Assignment.derives_tokens hwell)
  | assign assignment => exact .assign (Assignment.derives_tokens hwell)

theorem Program.derives_tokens {program : Program} (hwell : Program.WellFormed program) :
    Program.Derives (Program.tokens program) program := by
  induction program with
  | nil => exact .nil
  | cons statement program ih =>
      obtain ⟨hstatement, hprogram⟩ := List.forall_mem_cons.mp hwell
      exact .cons (Statement.derives_tokens hstatement) (ih hprogram)

/-! ## Canonical tokens are lexed again -/

theorem Settings.allLexical_tokens : ∀ properties : List (String × Atom),
    (∀ property ∈ properties, WellFormedName property.1 ∧ property.2.WellFormed) →
      AllLexical (propertiesTokens properties)
  | [], _ => allLexical_nil
  | [property], hwell => by
      obtain ⟨hname, hvalue⟩ := hwell property List.mem_cons_self
      simpa [propertiesTokens] using ⟨hname, hvalue⟩
  | property :: next :: properties, hwell => by
      obtain ⟨⟨hname, hvalue⟩, hrest⟩ := List.forall_mem_cons.mp hwell
      have htokens := allLexical_tokens (next :: properties) hrest
      simpa [propertiesTokens] using ⟨hname, hvalue, htokens⟩

mutual

theorem Pattern.allLexical_tokens : ∀ pattern : Pattern, pattern.WellFormed →
    AllLexical pattern.tokens
  | .atom value, hwell => allLexical_cons.mpr ⟨hwell, allLexical_nil⟩
  | .constructor name args, hwell => by
      have hargs := Pattern.allLexical_argsTokens args hwell.2
      simpa [Pattern.tokens] using ⟨hwell.1, hargs⟩

theorem Pattern.allLexical_argsTokens : ∀ args : List Pattern, Pattern.AllWellFormed args →
    AllLexical (Pattern.argsTokens args)
  | [], _ => allLexical_nil
  | [arg], hwell => Pattern.allLexical_tokens arg hwell.1
  | arg :: next :: args, hwell => by
      have harg := Pattern.allLexical_tokens arg hwell.1
      have hargs := Pattern.allLexical_argsTokens (next :: args) hwell.2
      simpa [Pattern.argsTokens] using ⟨harg, hargs⟩

end

mutual

theorem Expr.allLexical_tokens : ∀ expr : Expr, expr.WellFormed → AllLexical expr.tokens
  | .atom value, hwell => allLexical_cons.mpr ⟨hwell, allLexical_nil⟩
  | .config name settings, hwell => by
      have hentries := Settings.allLexical_tokens settings.entries hwell.2.entries
      simpa [Expr.tokens] using ⟨hwell.1, hentries⟩
  | .map entries, hwell => by
      have hentries := Expr.allLexical_entriesTokens entries hwell
      simpa [Expr.tokens] using hentries
  | .flow steps, hwell => Expr.allLexical_stepsTokens steps hwell.2.2

theorem Expr.allLexical_stepsTokens : ∀ steps : List Expr, Expr.AllWellFormed steps →
    AllLexical (Expr.stepsTokens steps)
  | [], _ => allLexical_nil
  | [step], hwell => Expr.allLexical_tokens step hwell.1
  | step :: next :: steps, hwell => by
      have hstep := Expr.allLexical_tokens step hwell.1
      have hsteps := Expr.allLexical_stepsTokens (next :: steps) hwell.2
      simpa [Expr.stepsTokens] using ⟨hstep, hsteps⟩

theorem Expr.allLexical_entriesTokens : ∀ entries : List (Pattern × Expr),
    Expr.EntriesWellFormed entries → AllLexical (Expr.entriesTokens entries)
  | [], _ => allLexical_nil
  | [(key, value)], hwell => by
      have hkey := Pattern.allLexical_tokens key hwell.1
      have hvalue := Expr.allLexical_tokens value hwell.2.1
      simpa [Expr.entriesTokens] using ⟨hkey, hvalue⟩
  | (key, value) :: next :: entries, hwell => by
      have hkey := Pattern.allLexical_tokens key hwell.1
      have hvalue := Expr.allLexical_tokens value hwell.2.1
      have hentries := Expr.allLexical_entriesTokens (next :: entries) hwell.2.2
      simpa [Expr.entriesTokens] using ⟨hkey, hvalue, hentries⟩

end

theorem Signature.allLexical_tokens {signature : Signature} (hwell : signature.WellFormed) :
    AllLexical signature.tokens := by
  cases signature with
  | simple name => exact allLexical_cons.mpr ⟨hwell, allLexical_nil⟩
  | flow input output =>
      obtain ⟨hinput, houtput⟩ := hwell
      exact allLexical_cons.mpr ⟨hinput, allLexical_cons.mpr ⟨Token.lexical_mark .arrow,
        allLexical_cons.mpr ⟨houtput, allLexical_nil⟩⟩⟩

theorem Assignment.allLexical_tokens {assignment : Assignment}
    (hwell : assignment.WellFormed) : AllLexical assignment.tokens := by
  obtain ⟨name, signature, value⟩ := assignment
  have hvalue := Expr.allLexical_tokens value hwell.value
  cases signature with
  | none => simpa [Assignment.tokens] using ⟨hwell.name, hvalue⟩
  | some signature =>
      have hsignature := Signature.allLexical_tokens (hwell.signature signature rfl)
      simpa [Assignment.tokens] using ⟨hwell.name, hsignature, hvalue⟩

theorem Statement.allLexical_tokens {statement : Statement} (hwell : statement.WellFormed) :
    AllLexical statement.tokens := by
  cases statement with
  | empty => exact allLexical_nil
  | importName name signature =>
      have hsignature := Signature.allLexical_tokens hwell.2
      simpa [Statement.tokens] using ⟨hwell.1, hsignature⟩
  | exportFlow assignment =>
      have hassignment := Assignment.allLexical_tokens hwell
      simpa [Statement.tokens] using hassignment
  | assign assignment => exact Assignment.allLexical_tokens hwell

theorem Program.allLexical_tokens {program : Program} (hwell : Program.WellFormed program) :
    AllLexical (Program.tokens program) := by
  induction program with
  | nil => exact allLexical_nil
  | cons statement program ih =>
      obtain ⟨hstatement, hprogram⟩ := List.forall_mem_cons.mp hwell
      simpa [Program.tokens] using
        ⟨Statement.allLexical_tokens hstatement, ih hprogram⟩

end Dataflow
