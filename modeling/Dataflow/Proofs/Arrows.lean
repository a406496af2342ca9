import Dataflow.Program.DecidableEq
import Dataflow.Proofs.Independence
import Dataflow.Proofs.Acceptance
import Dataflow.Proofs.Spelling
import Mathlib.Data.List.Nodup

/-!
# Arrows

The arrows in the value of an assignment only separate.  A program is the same
without them, so that two programs with the same tokens besides these arrows are
the same program.  They are also all that is lost in reading: when no component is
given a property twice, the program determines every other token, and so two token
lists that are the same program differ in such arrows only.
-/

namespace Dataflow

/-! ## Erasing arrows -/

def withoutArrows (tokens : List Token) : List Token :=
  tokens.filter (· ≠ .mark .arrow)

@[simp]
theorem withoutArrows_nil : withoutArrows [] = [] := rfl

@[simp]
theorem withoutArrows_arrow (tokens : List Token) :
    withoutArrows (.mark .arrow :: tokens) = withoutArrows tokens := by
  simp [withoutArrows]

@[simp]
theorem withoutArrows_cons {token : Token} (htoken : token ≠ .mark .arrow)
    (tokens : List Token) : withoutArrows (token :: tokens) = token :: withoutArrows tokens := by
  simp [withoutArrows, htoken]

@[simp]
theorem withoutArrows_append (front rest : List Token) :
    withoutArrows (front ++ rest) = withoutArrows front ++ withoutArrows rest :=
  List.filter_append front rest

@[simp]
theorem withoutArrows_replicate (arrows : Nat) :
    withoutArrows (List.replicate arrows (.mark .arrow)) = [] := by
  simp [withoutArrows]

/-- A run without the arrows after its first equals sign.  An import keeps all of
its tokens. -/
def eraseRun (run : List Token) : List Token :=
  if run.head? = some (.mark .importWord) then run
  else run.takeWhile (· ≠ .mark .equals) ++ withoutArrows (run.dropWhile (· ≠ .mark .equals))

/-- The tokens without the arrows in the values of their statements. -/
def Program.erase (tokens : List Token) : List Token :=
  (runs tokens).flatMap (fun run => eraseRun run ++ [.mark .semicolon]) ++
    eraseRun (remainder tokens)

theorem eraseRun_import (tokens : List Token) :
    eraseRun (.mark .importWord :: tokens) = .mark .importWord :: tokens :=
  if_pos rfl

/-- Only the value loses its arrows. -/
theorem eraseRun_value {front : List Token} (himport : front.head? ≠ some (.mark .importWord))
    (hfront : .mark .equals ∉ front) (value : List Token) :
    eraseRun (front ++ .mark .equals :: value) = front ++ .mark .equals :: withoutArrows value := by
  have hpass : ∀ token ∈ front, decide (token ≠ .mark .equals) = true := by
    intro token hmem
    exact decide_eq_true fun heq => hfront (heq ▸ hmem)
  have hhead : ¬ (front ++ .mark .equals :: value).head? = some (.mark .importWord) := by
    cases front with
    | nil => simp
    | cons token front => exact himport
  rw [eraseRun, if_neg hhead, List.takeWhile_append_of_pos hpass,
    List.dropWhile_append_of_pos hpass, List.takeWhile_cons_of_neg (by simp),
    List.dropWhile_cons_of_neg (by simp), List.append_nil, withoutArrows_cons (by simp)]

namespace Program

theorem erase_append {run : List Token} (hrun : IsRun run) (rest : List Token) :
    erase (run ++ .mark .semicolon :: rest) = eraseRun run ++ .mark .semicolon :: erase rest := by
  rw [erase, runs_append hrun, remainder_append hrun, List.flatMap_cons, erase]
  simp only [List.append_assoc, List.cons_append, List.nil_append]

end Program

/-! ## Values without arrows derive the same -/

@[simp]
theorem Atom.withoutArrows_token (value : Atom) (tokens : List Token) :
    withoutArrows (value.token :: tokens) = value.token :: withoutArrows tokens :=
  withoutArrows_cons (value.token_ne_mark .arrow) tokens

theorem Settings.DerivesProperties.withoutArrows_eq {tokens : List Token}
    {properties : List (String × Atom)} (hderives : DerivesProperties tokens properties) :
    withoutArrows tokens = tokens := by
  induction hderives with
  | one name value => simp
  | cons name value hrest ih => simp [ih]

theorem Settings.Derives.withoutArrows_eq {tokens : List Token} {settings : Settings}
    (hderives : Settings.Derives tokens settings) : withoutArrows tokens = tokens := by
  cases hderives with
  | empty => rfl
  | collect hproperties hcollects => exact hproperties.withoutArrows_eq

mutual

theorem Pattern.Derives.withoutArrows_eq {tokens : List Token} {pattern : Pattern} :
    Pattern.Derives tokens pattern → withoutArrows tokens = tokens
  | .atom value => by simp
  | .constant name => by simp
  | .constructor name hargs => by simp [hargs.withoutArrows_eq]

theorem Pattern.DerivesArgs.withoutArrows_eq {tokens : List Token} {args : List Pattern} :
    Pattern.DerivesArgs tokens args → withoutArrows tokens = tokens
  | .one harg => harg.withoutArrows_eq
  | .cons harg hrest => by simp [harg.withoutArrows_eq, hrest.withoutArrows_eq]

end

mutual

theorem Expr.Derives.withoutArrows {tokens : List Token} {expr : Expr} :
    Expr.Derives tokens expr → Expr.Derives (withoutArrows tokens) expr
  | .step hsteps => .step hsteps.withoutArrows
  | .flow hsteps => .flow hsteps.withoutArrows

theorem Expr.DerivesSteps.withoutArrows {tokens : List Token} {steps : List Expr} :
    Expr.DerivesSteps tokens steps → Expr.DerivesSteps (withoutArrows tokens) steps
  | .nil => .nil
  | .cons arrows hstep hrest => by
      simpa using Expr.DerivesSteps.cons 0 hstep.withoutArrows hrest.withoutArrows

theorem Expr.DerivesStep.withoutArrows {tokens : List Token} {step : Expr} :
    Expr.DerivesStep tokens step → Expr.DerivesStep (withoutArrows tokens) step
  | .atom value => by simpa using Expr.DerivesStep.atom value
  | .config name hsettings => by
      simpa [hsettings.withoutArrows_eq] using Expr.DerivesStep.config name hsettings
  | .map hmap => .map hmap.withoutArrows

theorem Expr.DerivesMap.withoutArrows {tokens : List Token} {entries : List (Pattern × Expr)} :
    Expr.DerivesMap tokens entries → Expr.DerivesMap (withoutArrows tokens) entries
  | .empty => by simpa using Expr.DerivesMap.empty
  | .entries hentries => by simpa using Expr.DerivesMap.entries hentries.withoutArrows

theorem Expr.DerivesEntries.withoutArrows {tokens : List Token}
    {entries : List (Pattern × Expr)} :
    Expr.DerivesEntries tokens entries → Expr.DerivesEntries (withoutArrows tokens) entries
  | .one hkey hvalue => by
      simpa [hkey.withoutArrows_eq] using Expr.DerivesEntries.one hkey hvalue.withoutArrows
  | .cons hkey hvalue hrest => by
      simpa [hkey.withoutArrows_eq] using
        Expr.DerivesEntries.cons hkey hvalue.withoutArrows hrest.withoutArrows

end

/-! ## Properties that are given once -/

/-- Wherever a configured component stands in the tokens, its properties have
distinct names. -/
def DistinctProperties (tokens : List Token) : Prop :=
  ∀ name inner properties,
    .identifier name :: .mark .openParen :: (inner ++ [.mark .closeParen]) <:+: tokens →
      Settings.DerivesProperties inner properties → (properties.map Prod.fst).Nodup

namespace DistinctProperties

variable {token : Token} {front rest : List Token}

theorem of_infix {tokens part : List Token} (hdistinct : DistinctProperties tokens)
    (hpart : part <:+: tokens) : DistinctProperties part :=
  fun name inner properties hinner => hdistinct name inner properties (hinner.trans hpart)

theorem of_append_left (hdistinct : DistinctProperties (front ++ rest)) :
    DistinctProperties front :=
  hdistinct.of_infix (List.prefix_append front rest).isInfix

theorem of_append_right (hdistinct : DistinctProperties (front ++ rest)) :
    DistinctProperties rest :=
  hdistinct.of_infix (List.suffix_append front rest).isInfix

theorem of_cons (hdistinct : DistinctProperties (token :: rest)) : DistinctProperties rest :=
  hdistinct.of_infix (List.suffix_cons token rest).isInfix

end DistinctProperties

theorem Settings.DerivesProperties.names_sublist {tokens : List Token}
    {properties : List (String × Atom)} (hderives : DerivesProperties tokens properties) :
    ((properties.map Prod.fst).map Token.identifier).Sublist
      (tokens.filter Token.isIdentifier) := by
  induction hderives with
  | one name value =>
      rw [List.filter_cons_of_pos rfl]
      exact (List.nil_sublist _).cons_cons _
  | cons name value hrest ih =>
      rw [List.filter_cons_of_pos rfl]
      refine (ih.trans ?_).cons_cons _
      exact (List.suffix_append [_, _, _] _).sublist.filter _

/-- It is enough that no name at all stands in the tokens twice. -/
theorem DistinctProperties.of_nodup_identifiers {tokens : List Token}
    (hnodup : (tokens.filter Token.isIdentifier).Nodup) : DistinctProperties tokens := by
  intro name inner properties hinner hproperties
  have hpart : inner <:+: tokens := by
    refine List.IsInfix.trans ?_ hinner
    exact ⟨[.identifier name, .mark .openParen], [.mark .closeParen], rfl⟩
  have hnames := hproperties.names_sublist.trans (hpart.sublist.filter Token.isIdentifier)
  exact List.Nodup.of_map Token.identifier (hnodup.sublist hnames)

namespace Settings

theorem DerivesProperties.eq_tokens {tokens : List Token} {properties : List (String × Atom)}
    (hderives : DerivesProperties tokens properties) :
    tokens = propertiesTokens properties := by
  induction hderives with
  | one name value => rfl
  | cons name value hrest ih =>
      rw [ih]
      cases hrest <;> rfl

/-- Properties that are given once are all kept, in their order. -/
theorem Derives.eq_tokens {tokens : List Token} {settings : Settings} {name : String}
    (hderives : Settings.Derives tokens settings)
    (hdistinct : DistinctProperties
      (.identifier name :: .mark .openParen :: (tokens ++ [.mark .closeParen]))) :
    tokens = propertiesTokens settings.entries := by
  cases hderives with
  | empty => rfl
  | collect hproperties hcollects =>
      have hnodup := hdistinct name tokens _ (List.infix_refl _) hproperties
      rw [collects_iff.mp hcollects, entries_ofList hnodup]
      exact hproperties.eq_tokens

end Settings

/-! ## The program determines all other tokens -/

mutual

theorem Pattern.Derives.eq_tokens {tokens : List Token} {pattern : Pattern} :
    Pattern.Derives tokens pattern → tokens = pattern.tokens
  | .atom value => rfl
  | .constant name => rfl
  | .constructor name hargs => by rw [Pattern.tokens, ← hargs.eq_tokens]

theorem Pattern.DerivesArgs.eq_tokens {tokens : List Token} {args : List Pattern} :
    Pattern.DerivesArgs tokens args → tokens = Pattern.argsTokens args
  | .one harg => harg.eq_tokens
  | .cons harg hrest => by
      rw [harg.eq_tokens, hrest.eq_tokens]
      cases hrest <;> rfl

end

theorem Expr.withoutArrows_stepsTokens (step : Expr) (steps : List Expr) :
    withoutArrows (Expr.stepsTokens (step :: steps)) =
      withoutArrows step.tokens ++ withoutArrows (Expr.stepsTokens steps) := by
  cases steps with
  | nil => simp [Expr.stepsTokens]
  | cons next steps => simp [Expr.stepsTokens]

mutual

theorem Expr.Derives.withoutArrows_eq {tokens : List Token} {expr : Expr} :
    Expr.Derives tokens expr → DistinctProperties tokens →
      withoutArrows tokens = withoutArrows expr.tokens
  | .step hsteps, hdistinct => by
      have heq := hsteps.withoutArrows_eq hdistinct
      rwa [Expr.stepsTokens] at heq
  | .flow hsteps, hdistinct => hsteps.withoutArrows_eq hdistinct

theorem Expr.DerivesSteps.withoutArrows_eq {tokens : List Token} {steps : List Expr} :
    Expr.DerivesSteps tokens steps → DistinctProperties tokens →
      withoutArrows tokens = withoutArrows (Expr.stepsTokens steps)
  | .nil, _ => rfl
  | .cons arrows hstep hrest, hdistinct => by
      have hstepEq := hstep.withoutArrows_eq hdistinct.of_append_right.of_append_left
      have hrestEq := hrest.withoutArrows_eq hdistinct.of_append_right.of_append_right
      rw [Expr.withoutArrows_stepsTokens, withoutArrows_append, withoutArrows_append,
        withoutArrows_replicate, hstepEq, hrestEq, List.nil_append]

theorem Expr.DerivesStep.withoutArrows_eq {tokens : List Token} {step : Expr} :
    Expr.DerivesStep tokens step → DistinctProperties tokens →
      withoutArrows tokens = withoutArrows step.tokens
  | .atom value, _ => rfl
  | .config name hsettings, hdistinct => by
      rw [Expr.tokens, ← hsettings.eq_tokens hdistinct]
  | .map hmap, hdistinct => hmap.withoutArrows_eq hdistinct

theorem Expr.DerivesMap.withoutArrows_eq {tokens : List Token}
    {entries : List (Pattern × Expr)} :
    Expr.DerivesMap tokens entries → DistinctProperties tokens →
      withoutArrows tokens = withoutArrows (Expr.map entries).tokens
  | .empty, _ => rfl
  | .entries hentries, hdistinct => by
      have heq := hentries.withoutArrows_eq hdistinct.of_cons.of_append_left
      simp [Expr.tokens, heq]

theorem Expr.DerivesEntries.withoutArrows_eq {tokens : List Token}
    {entries : List (Pattern × Expr)} :
    Expr.DerivesEntries tokens entries → DistinctProperties tokens →
      withoutArrows tokens = withoutArrows (Expr.entriesTokens entries)
  | .one hkey hvalue, hdistinct => by
      have hvalueEq := hvalue.withoutArrows_eq hdistinct.of_append_right.of_cons
      simp [Expr.entriesTokens, hkey.eq_tokens, hvalueEq]
  | .cons hkey hvalue hrest, hdistinct => by
      have hafterColon := hdistinct.of_append_right.of_cons
      have hvalueEq := hvalue.withoutArrows_eq hafterColon.of_append_left
      have hrestEq := hrest.withoutArrows_eq hafterColon.of_append_right.of_cons
      rw [hkey.eq_tokens]
      cases hrest <;> simp [Expr.entriesTokens, hvalueEq, hrestEq]

end

/-! ## Statements -/

theorem Signature.Derives.eq_tokens {tokens : List Token} {signature : Signature}
    (hderives : Signature.Derives tokens signature) : tokens = signature.tokens := by
  cases hderives <;> rfl

theorem Signature.equals_not_mem_tokens (signature : Signature) :
    .mark .equals ∉ signature.tokens := by
  cases signature <;> simp [Signature.tokens]

/-- What stands before the equals sign of an assignment. -/
def Assignment.head (assignment : Assignment) : List Token :=
  match assignment.signature with
  | none => [.identifier assignment.name]
  | some signature => .identifier assignment.name :: .mark .colon :: signature.tokens

namespace Assignment

theorem head?_head (assignment : Assignment) :
    assignment.head.head? = some (.identifier assignment.name) := by
  obtain ⟨name, signature, value⟩ := assignment
  cases signature <;> rfl

theorem equals_not_mem_head (assignment : Assignment) : .mark .equals ∉ assignment.head := by
  obtain ⟨name, signature, value⟩ := assignment
  cases signature with
  | none => simp [head]
  | some signature => simp [head, signature.equals_not_mem_tokens]

theorem tokens_eq_head (assignment : Assignment) :
    assignment.tokens = assignment.head ++ .mark .equals :: assignment.value.tokens := by
  obtain ⟨name, signature, value⟩ := assignment
  cases signature <;> rfl

/-- An assignment is its head, an equals sign and its value. -/
theorem derives_iff {tokens : List Token} {assignment : Assignment} :
    Derives tokens assignment ↔
      ∃ value, tokens = assignment.head ++ .mark .equals :: value ∧
        Expr.Derives value assignment.value := by
  constructor
  · intro hderives
    cases hderives with
    | untyped name hvalue => exact ⟨_, rfl, hvalue⟩
    | typed name htype hvalue =>
        rw [htype.eq_tokens]
        exact ⟨_, rfl, hvalue⟩
  · obtain ⟨name, signature, value⟩ := assignment
    rintro ⟨tokens, rfl, hvalue⟩
    cases signature with
    | none => exact .untyped name hvalue
    | some signature => exact .typed name signature.derives_tokens hvalue

end Assignment

namespace Statement

theorem eraseRun_assign (assignment : Assignment) (value : List Token) :
    eraseRun (assignment.head ++ .mark .equals :: value) =
      assignment.head ++ .mark .equals :: withoutArrows value := by
  apply eraseRun_value _ assignment.equals_not_mem_head
  rw [assignment.head?_head]
  simp

theorem eraseRun_export (assignment : Assignment) (value : List Token) :
    eraseRun (.mark .exportWord :: (assignment.head ++ .mark .equals :: value)) =
      .mark .exportWord :: (assignment.head ++ .mark .equals :: withoutArrows value) := by
  have hhead : .mark .equals ∉ Token.mark .exportWord :: assignment.head := by
    simpa using assignment.equals_not_mem_head
  exact eraseRun_value (by simp) hhead value

theorem Derives.eraseRun {tokens : List Token} {statement : Statement}
    (hderives : Statement.Derives tokens statement) :
    Statement.Derives (eraseRun tokens) statement := by
  cases hderives with
  | empty => exact .empty
  | importName name htype =>
      rw [eraseRun_import]
      exact .importName name htype
  | exportFlow hassignment =>
      obtain ⟨value, rfl, hvalue⟩ := Assignment.derives_iff.mp hassignment
      rw [eraseRun_export]
      exact .exportFlow (Assignment.derives_iff.mpr ⟨_, rfl, hvalue.withoutArrows⟩)
  | assign hassignment =>
      obtain ⟨value, rfl, hvalue⟩ := Assignment.derives_iff.mp hassignment
      rw [eraseRun_assign]
      exact .assign (Assignment.derives_iff.mpr ⟨_, rfl, hvalue.withoutArrows⟩)

/-- Without its arrows a run is what the canonical tokens of its statement are
without theirs. -/
theorem Derives.eraseRun_eq {tokens : List Token} {statement : Statement}
    (hderives : Statement.Derives tokens statement) (hdistinct : DistinctProperties tokens) :
    Dataflow.eraseRun tokens = Dataflow.eraseRun statement.tokens := by
  cases hderives with
  | empty => rfl
  | importName name htype => rw [htype.eq_tokens, Statement.tokens]
  | exportFlow hassignment =>
      obtain ⟨value, rfl, hvalue⟩ := Assignment.derives_iff.mp hassignment
      have heq := hvalue.withoutArrows_eq hdistinct.of_cons.of_append_right.of_cons
      rw [Statement.tokens, Assignment.tokens_eq_head, eraseRun_export, eraseRun_export, heq]
  | assign hassignment =>
      obtain ⟨value, rfl, hvalue⟩ := Assignment.derives_iff.mp hassignment
      have heq := hvalue.withoutArrows_eq hdistinct.of_append_right.of_cons
      rw [Statement.tokens, Assignment.tokens_eq_head, eraseRun_assign, eraseRun_assign, heq]

end Statement

/-! ## Programs -/

namespace Program

theorem Derives.erase {tokens : List Token} {program : Program}
    (hderives : Derives tokens program) : Derives (erase tokens) program := by
  induction hderives with
  | nil => exact .nil
  | cons hrun hrest ih =>
      rw [erase_append hrun.isRun]
      exact .cons hrun.eraseRun ih

/-- The canonical tokens of a program without the arrows in its values. -/
def bareTokens (program : Program) : List Token :=
  program.flatMap fun statement => eraseRun statement.tokens ++ [.mark .semicolon]

theorem Derives.erase_eq {tokens : List Token} {program : Program}
    (hderives : Derives tokens program) (hdistinct : DistinctProperties tokens) :
    Program.erase tokens = bareTokens program := by
  induction hderives with
  | nil => rfl
  | cons hrun hrest ih =>
      rw [erase_append hrun.isRun, hrun.eraseRun_eq hdistinct.of_append_left,
        ih hdistinct.of_append_right.of_cons, bareTokens, bareTokens, List.flatMap_cons,
        List.append_assoc, List.singleton_append]

/-- Tokens derive one program at most, since the reader answers with one. -/
theorem Derives.unique {tokens : List Token} {left right : Program}
    (hleft : Derives tokens left) (hright : Derives tokens right) : left = right := by
  have hread : ∀ {program : Program}, Derives tokens program →
      ofTokens (tokens.length + 3) tokens = .ok program := by
    intro program hderives
    refine ofTokens_eq_ok_iff_derives.mpr ⟨hderives, fun statement hmem => ?_⟩
    exact Nat.lt_succ_of_le (hderives.depth_le_length statement hmem)
  exact Except.ok.inj ((hread hleft).symm.trans (hread hright))

/-- Erasing the arrows in its values leaves a program as it is, so that token lists
with equal erasures are the same program.  Token lists that are the same program
have equal erasures, when they give no property of a component twice. -/
theorem ofTokens_erase :
    (∀ (limit : Nat) (tokens : List Token) (program : Program),
      ofTokens limit tokens = .ok program → ofTokens limit (erase tokens) = .ok program) ∧
    (∀ (limit limit' : Nat) (left right : List Token) (program program' : Program),
      ofTokens limit left = .ok program → ofTokens limit' right = .ok program' →
        erase left = erase right → program = program') ∧
    ∀ (limit limit' : Nat) (left right : List Token) (program : Program),
      ofTokens limit left = .ok program → ofTokens limit' right = .ok program →
        DistinctProperties left → DistinctProperties right → erase left = erase right := by
  refine ⟨?_, ?_, ?_⟩
  · intro limit tokens program hread
    obtain ⟨hderives, hdepth⟩ := ofTokens_eq_ok_iff_derives.mp hread
    exact ofTokens_eq_ok_iff_derives.mpr ⟨hderives.erase, hdepth⟩
  · intro limit limit' left right program program' hleft hright herase
    have hderives := (ofTokens_eq_ok_iff_derives.mp hleft).1.erase
    rw [herase] at hderives
    exact hderives.unique (ofTokens_eq_ok_iff_derives.mp hright).1.erase
  · intro limit limit' left right program hleft hright hdistinctLeft hdistinctRight
    calc
      erase left = bareTokens program :=
        (ofTokens_eq_ok_iff_derives.mp hleft).1.erase_eq hdistinctLeft
      _ = erase right :=
        ((ofTokens_eq_ok_iff_derives.mp hright).1.erase_eq hdistinctRight).symm

/-- A leading and a doubled arrow before the steps of a flow, and none at all. -/
theorem ofTokens_erase_component :
    ofTokens 9 (tokenize "x = -> a -> -> f ( k = 1 ) ;") =
        .ok [.assign ⟨"x", none, .flow
          [.atom (.identifier "a"), .config "f" (.ofList [("k", .literal "1")])]⟩] ∧
      erase (tokenize "x = -> a -> -> f ( k = 1 ) ;") = tokenize "x = a f ( k = 1 ) ;" ∧
      ofTokens 9 (tokenize "x = a f ( k = 1 ) ;") =
        .ok [.assign ⟨"x", none, .flow
          [.atom (.identifier "a"), .config "f" (.ofList [("k", .literal "1")])]⟩] ∧
      erase (tokenize "x = a f ( k = 1 ) ;") = tokenize "x = a f ( k = 1 ) ;" := by
  have harrows : ofTokens 9 (tokenize "x = -> a -> -> f ( k = 1 ) ;") =
      .ok [.assign ⟨"x", none, .flow
        [.atom (.identifier "a"), .config "f" (.ofList [("k", .literal "1")])]⟩] := by
    decide +kernel
  have herase : erase (tokenize "x = -> a -> -> f ( k = 1 ) ;") =
      tokenize "x = a f ( k = 1 ) ;" := by
    decide +kernel
  have hbare := ofTokens_erase.1 _ _ _ harrows
  rw [herase] at hbare
  have hsame := ofTokens_erase.2.2 _ _ _ _ _ harrows hbare
    (.of_nodup_identifiers (by decide +kernel)) (.of_nodup_identifiers (by decide +kernel))
  exact ⟨harrows, herase, hbare, hsame.symm.trans herase⟩

end Program

end Dataflow
