import Dataflow.Proofs.Lexing
import Dataflow.Proofs.Reading.Program
import Dataflow.Proofs.Reading.Statement

/-!
# What is accepted

The program reader accepts a token list exactly when the grammar derives it, and
builds the program that the grammar assigns to it.  The nesting limit is the only
other reason for a refusal, and since every level takes a token, a limit that is
large against the number of tokens never is one.  A source that keeps to the
limits on its size is parsed as its tokens are.
-/

namespace Dataflow

/-! ## Statements hold no semicolon -/

theorem Settings.DerivesProperties.isRun {tokens : List Token}
    {properties : List (String × Atom)}
    (hderives : Settings.DerivesProperties tokens properties) : IsRun tokens := by
  induction hderives with
  | one name value => simp
  | cons name value hrest ih => simpa using ih

theorem Settings.Derives.isRun {tokens : List Token} {settings : Settings}
    (hderives : Settings.Derives tokens settings) : IsRun tokens := by
  cases hderives with
  | empty => exact isRun_nil
  | collect hproperties hcollects => exact hproperties.isRun

mutual

theorem Pattern.Derives.isRun {tokens : List Token} {pattern : Pattern} :
    Pattern.Derives tokens pattern → IsRun tokens
  | .atom value => by simp
  | .constant name => by simp
  | .constructor name hargs => by simpa using hargs.isRun

theorem Pattern.DerivesArgs.isRun {tokens : List Token} {args : List Pattern} :
    Pattern.DerivesArgs tokens args → IsRun tokens
  | .one harg => harg.isRun
  | .cons harg hrest => by simpa using ⟨harg.isRun, hrest.isRun⟩

end

theorem isRun_arrows (arrows : Nat) : IsRun (List.replicate arrows (.mark .arrow)) := by
  intro hmem
  have heq := List.eq_of_mem_replicate hmem
  simp at heq

mutual

theorem Expr.Derives.isRun {tokens : List Token} {expr : Expr} :
    Expr.Derives tokens expr → IsRun tokens
  | .step hsteps => hsteps.isRun
  | .flow hsteps => hsteps.isRun

theorem Expr.DerivesSteps.isRun {tokens : List Token} {steps : List Expr} :
    Expr.DerivesSteps tokens steps → IsRun tokens
  | .nil => isRun_nil
  | .cons arrows hstep hrest =>
      isRun_append.mpr ⟨isRun_arrows arrows, isRun_append.mpr ⟨hstep.isRun, hrest.isRun⟩⟩

theorem Expr.DerivesStep.isRun {tokens : List Token} {step : Expr} :
    Expr.DerivesStep tokens step → IsRun tokens
  | .atom value => by simp
  | .config name hsettings => by simpa using hsettings.isRun
  | .map hmap => hmap.isRun

theorem Expr.DerivesMap.isRun {tokens : List Token} {entries : List (Pattern × Expr)} :
    Expr.DerivesMap tokens entries → IsRun tokens
  | .empty => by simp
  | .entries hentries => by simpa using hentries.isRun

theorem Expr.DerivesEntries.isRun {tokens : List Token} {entries : List (Pattern × Expr)} :
    Expr.DerivesEntries tokens entries → IsRun tokens
  | .one hkey hvalue => by simpa using ⟨hkey.isRun, hvalue.isRun⟩
  | .cons hkey hvalue hrest => by simpa using ⟨hkey.isRun, hvalue.isRun, hrest.isRun⟩

end

theorem Signature.Derives.isRun {tokens : List Token} {signature : Signature}
    (hderives : Signature.Derives tokens signature) : IsRun tokens := by
  cases hderives <;> simp

theorem Assignment.Derives.isRun {tokens : List Token} {assignment : Assignment}
    (hderives : Assignment.Derives tokens assignment) : IsRun tokens := by
  cases hderives with
  | untyped name hvalue => simpa using hvalue.isRun
  | typed name htype hvalue => simpa using ⟨htype.isRun, hvalue.isRun⟩

theorem Statement.Derives.isRun {tokens : List Token} {statement : Statement}
    (hderives : Statement.Derives tokens statement) : IsRun tokens := by
  cases hderives with
  | empty => exact isRun_nil
  | importName name htype => simpa using htype.isRun
  | exportFlow hassignment => simpa using hassignment.isRun
  | assign hassignment => exact hassignment.isRun

/-! ## Programs -/

namespace Program

theorem map_cons_eq_ok_iff {result : Except SyntaxError Program} {statement : Statement}
    {program : Program} :
    result.map (statement :: ·) = .ok program ↔
      ∃ rest, program = statement :: rest ∧ result = .ok rest := by
  cases result with
  | error error => simp [Except.map]
  | ok rest => simp [Except.map, eq_comm]

/-- A program is what its tokens derive, and none of its statements is too
deep. -/
theorem ofTokens_eq_ok_iff_derives {limit : Nat} {tokens : List Token} {program : Program} :
    ofTokens limit tokens = .ok program ↔
      Derives tokens program ∧ ∀ statement ∈ program, statement.depth < limit := by
  constructor
  · intro hread
    induction tokens using inductionOnRuns generalizing program with
    | tail tokens hrun =>
        rw [ofTokens_tail limit hrun] at hread
        split at hread
        · next hnil =>
          obtain rfl := Except.ok.inj hread
          exact ⟨hnil ▸ .nil, nofun⟩
        · contradiction
    | run run rest hrun ih =>
        rw [ofTokens_run limit hrun] at hread
        split at hread
        · contradiction
        · next statement hstatement =>
          obtain ⟨program, rfl, hrest⟩ := map_cons_eq_ok_iff.mp hread
          obtain ⟨hderives, hdepth⟩ := Statement.read_eq_ok_iff.mp hstatement
          obtain ⟨hrestDerives, hrestDepth⟩ := ih hrest
          exact ⟨.cons hderives hrestDerives, List.forall_mem_cons.mpr ⟨hdepth, hrestDepth⟩⟩
  · rintro ⟨hderives, hdepth⟩
    induction hderives with
    | nil => rfl
    | cons hrun hrest ih =>
        obtain ⟨hhead, htail⟩ := List.forall_mem_cons.mp hdepth
        rw [ofTokens_run limit hrun.isRun, hrun.read_eq hhead, ih htail]
        rfl

/-- Every statement of a derived program is derived from some of its tokens. -/
theorem Derives.depth_le_length {tokens : List Token} {program : Program}
    (hderives : Derives tokens program) :
    ∀ statement ∈ program, statement.depth ≤ tokens.length + 2 := by
  induction hderives with
  | nil => nofun
  | cons hrun hrest ih =>
      intro statement hmem
      have hlength := hrun.depth_le_length
      rw [List.length_append, List.length_cons]
      rcases List.mem_cons.mp hmem with rfl | hmem
      · omega
      · have hle := ih statement hmem
        omega

/-- With a limit that is large against the number of tokens, a program is read
exactly when the grammar derives it. -/
theorem ofTokens_eq_ok_iff {limit : Nat} {tokens : List Token} {program : Program}
    (hlimit : 2 * tokens.length + 4 ≤ limit) :
    ofTokens limit tokens = .ok program ↔ Derives tokens program := by
  rw [ofTokens_eq_ok_iff_derives]
  constructor
  · exact And.left
  · intro hderives
    refine ⟨hderives, fun statement hmem => ?_⟩
    have hle := hderives.depth_le_length statement hmem
    omega

/-- A leading arrow and a map, with the least limit for nine tokens. -/
theorem ofTokens_arrow_map :
    2 * 9 + 4 ≤ 22 ∧
      ofTokens 22
          [.identifier "x", .mark .equals, .mark .arrow, .mark .openBrace, .identifier "a",
            .mark .colon, .literal "1", .mark .closeBrace, .mark .semicolon] =
        .ok [.assign ⟨"x", none,
          .map [(.atom (.identifier "a"), .atom (.literal "1"))]⟩] := by
  have hvalue : Expr.Derives [.literal "1"] (.atom (.literal "1")) :=
    .step (.cons 0 (.atom (.literal "1")) .nil)
  have hmap : Expr.DerivesMap
      [.mark .openBrace, .identifier "a", .mark .colon, .literal "1", .mark .closeBrace]
      [(.atom (.identifier "a"), .atom (.literal "1"))] :=
    .entries (.one (.atom (.identifier "a")) hvalue)
  have hrun := Statement.Derives.assign
    (.untyped "x" (.step (.cons 1 (.map hmap) .nil)))
  exact ⟨Nat.le_refl 22, (ofTokens_eq_ok_iff (Nat.le_refl 22)).mpr (.cons hrun .nil)⟩

/-- Tokens are the value of an assignment when they derive it and do not nest too
deep. -/
theorem ofTokens_assign_eq_ok_iff {limit : Nat} {name : String} {tokens : List Token}
    {value : Expr} :
    ofTokens limit (.identifier name :: .mark .equals :: (tokens ++ [.mark .semicolon])) =
        .ok [.assign ⟨name, none, value⟩] ↔
      Expr.Derives tokens value ∧ value.height + 2 < limit := by
  rw [ofTokens_eq_ok_iff_derives, List.forall_mem_singleton]
  refine and_congr_left' ⟨fun hderives => ?_, fun hvalue => ?_⟩
  · generalize hall : Token.identifier name :: .mark .equals :: (tokens ++ [.mark .semicolon]) =
      all at hderives
    cases hderives with
    | cons hrun hrest =>
        cases hrest with
        | nil =>
            rw [← List.cons_append, ← List.cons_append] at hall
            obtain rfl := List.append_cancel_right hall
            cases hrun with
            | assign hassignment =>
                cases hassignment with
                | untyped name hvalue => exact hvalue
  · exact .cons (.assign (.untyped name hvalue)) .nil

theorem parse_eq_ok_iff {limits : Limits} {source : String} {program : Program} :
    parse limits source = .ok program ↔
      (source.utf8ByteSize ≤ limits.inputSize ∧
          (tokenize source).length ≤ limits.tokenCount) ∧
        ofTokens limits.nestingDepth (tokenize source) = .ok program := by
  rw [parse]
  constructor
  · intro hparse
    split at hparse
    · contradiction
    · next tokens hlex =>
      obtain ⟨hsize, hcount, rfl⟩ := lex_eq_ok_iff.mp hlex
      exact ⟨⟨hsize, hcount⟩, hparse⟩
  · rintro ⟨⟨hsize, hcount⟩, hread⟩
    rw [lex_eq_ok_iff.mpr ⟨hsize, hcount, rfl⟩]
    exact hread

theorem parse_of_fits {limits : Limits} {source : String}
    (hsize : source.utf8ByteSize ≤ limits.inputSize)
    (hcount : (tokenize source).length ≤ limits.tokenCount) :
    parse limits source = ofTokens limits.nestingDepth (tokenize source) := by
  rw [parse, lex_eq_ok_iff.mpr ⟨hsize, hcount, rfl⟩]

/-- A source is refused for its size, for the number of its tokens, or for what its
tokens are. -/
theorem parse_error_cases {limits : Limits} {source : String} {error : SyntaxError}
    (herror : parse limits source = .error error) :
    error = .inputTooLarge source.utf8ByteSize limits.inputSize ∨
      error = .tooManyTokens limits.tokenCount ∨
      (source.utf8ByteSize ≤ limits.inputSize ∧
        (tokenize source).length ≤ limits.tokenCount ∧
        ofTokens limits.nestingDepth (tokenize source) = .error error) := by
  rw [parse, lex_eq] at herror
  by_cases hsize : limits.inputSize < source.utf8ByteSize
  · rw [if_pos hsize] at herror
    exact .inl (Except.error.inj herror).symm
  · by_cases hcount : limits.tokenCount < (tokenize source).length
    · rw [if_neg hsize, if_pos hcount] at herror
      exact .inr (.inl (Except.error.inj herror).symm)
    · rw [if_neg hsize, if_neg hcount] at herror
      exact .inr (.inr ⟨Nat.le_of_not_gt hsize, Nat.le_of_not_gt hcount, herror⟩)

end Program

end Dataflow
