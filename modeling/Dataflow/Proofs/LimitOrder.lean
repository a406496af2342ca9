import Dataflow.Program.DecidableEq
import Dataflow.Proofs.Acceptance
import Dataflow.Proofs.Gating
import Dataflow.Proofs.Independence
import Dataflow.Proofs.Levels
import Dataflow.Proofs.Raising

/-!
# Larger limits

Limits only gate.  Under limits that are nowhere smaller a source is parsed with
the same outcome, unless the outcome under the smaller limits was that one of them
is exceeded.  And a source that nests too deep is refused at the very level that
the limit names.
-/

namespace Dataflow

/-- One of the three limits is exceeded. -/
def SyntaxError.IsLimit : SyntaxError → Prop
  | .inputTooLarge _ _ => True
  | .tooManyTokens _ => True
  | .unterminated _ => False
  | .statement _ fault => fault.IsTooDeep

/-- A statement nests too deep. -/
def SyntaxError.IsNesting : SyntaxError → Prop
  | .statement _ fault => fault.IsTooDeep
  | _ => False

namespace Program

/-- The second outcome is the first, unless the first is that a limit is
exceeded. -/
def LimitGated (small large : Except SyntaxError Program) : Prop :=
  (∃ error, small = .error error ∧ error.IsLimit) ∨ large = small

theorem limitGated_ofTokens {limit limit' : Nat} (hlimit : limit ≤ limit')
    (tokens : List Token) : LimitGated (ofTokens limit tokens) (ofTokens limit' tokens) := by
  induction tokens using inductionOnRuns with
  | tail tokens hrun =>
      right
      rw [ofTokens_tail limit hrun, ofTokens_tail limit' hrun]
  | run run rest hrun ih =>
      rw [ofTokens_run limit hrun, ofTokens_run limit' hrun]
      rcases Statement.gated_read hlimit run with ⟨fault, hread, hdeep⟩ | hread
      · rw [hread]
        exact .inl ⟨_, rfl, hdeep⟩
      · rw [hread]
        cases Statement.read limit run with
        | error fault => exact .inr rfl
        | ok statement =>
            rcases ih with ⟨error, herror, hlimit⟩ | hrest
            · rw [herror]
              exact .inl ⟨error, rfl, hlimit⟩
            · rw [hrest]
              exact .inr rfl

theorem limitGated_parse {small large : Limits}
    (hle : ∀ field, small.get field ≤ large.get field) (source : String) :
    LimitGated (parse small source) (parse large source) := by
  have hsize : small.inputSize ≤ large.inputSize := hle .inputSize
  have hcount : small.tokenCount ≤ large.tokenCount := hle .tokenCount
  rw [parse, parse, lex_eq, lex_eq]
  by_cases hbytes : small.inputSize < source.utf8ByteSize
  · rw [if_pos hbytes]
    exact .inl ⟨_, rfl, trivial⟩
  · by_cases htokens : small.tokenCount < (tokenize source).length
    · rw [if_neg hbytes, if_pos htokens]
      exact .inl ⟨_, rfl, trivial⟩
    · rw [if_neg hbytes, if_neg htokens, if_neg (by omega), if_neg (by omega)]
      exact limitGated_ofTokens (hle .nestingDepth) (tokenize source)

/-- The error of a program that nests too deep is that of one of its statements,
and names the limit. -/
theorem exists_read_of_isNesting {limit : Nat} {tokens : List Token} {error : SyntaxError}
    (herror : ofTokens limit tokens = .error error) (hnesting : error.IsNesting) :
    ∃ run found, error = .statement run (.tooDeep limit found) ∧
      Statement.read limit run = .error (.tooDeep limit found) := by
  rcases ofTokens_error_cases herror with ⟨-, rfl⟩ | ⟨run, fault, -, rfl, hread⟩
  · contradiction
  · have harises := Statement.refusesIn_read limit run fault hread
    cases fault with
    | tooDeep level found =>
        obtain rfl := harises.level_eq
        exact ⟨run, found, rfl, hread⟩
    | _ => contradiction

/-- Under larger limits a source has the same outcome, unless one of the smaller
limits is exceeded.  A source that nests too deep is refused at the level of its
limit, as it is counted up from the statement, and the message names that level. -/
theorem parse_of_limits_le :
    (∀ (small large : Limits) (source : String),
      (∀ field, small.get field ≤ large.get field) →
        (∀ program, parse small source = .ok program → parse large source = .ok program) ∧
        (∀ error, parse small source = .error error → ¬ error.IsLimit →
          parse large source = .error error) ∧
        (parse small source = parse large source ∨
          ∃ error, parse small source = .error error ∧ error.IsLimit)) ∧
    ∀ (limits : Limits) (source : String) (error : SyntaxError),
      parse limits source = .error error → error.IsNesting →
        error.message = "Parsing nesting too deep: " ++ toString limits.nestingDepth ++
            " levels (max " ++ toString limits.nestingDepth ++ "). Consider simplifying." ∧
          ∃ run found, error = .statement run (.tooDeep limits.nestingDepth found) ∧
            Statement.readAt limits.nestingDepth 0 run =
              .error (.tooDeep limits.nestingDepth found) := by
  constructor
  · intro small large source hle
    rcases limitGated_parse hle source with ⟨limitError, hsmall, hlimit⟩ | hlarge
    · refine ⟨fun program hprogram => ?_, fun error herror hfree => ?_,
        .inr ⟨limitError, hsmall, hlimit⟩⟩
      · rw [hsmall] at hprogram
        contradiction
      · rw [hsmall] at herror
        obtain rfl := Except.error.inj herror
        contradiction
    · rw [hlarge]
      exact ⟨fun _ hprogram => hprogram, fun _ herror _ => herror, .inl rfl⟩
  · intro limits source error herror hnesting
    rcases parse_error_cases herror with rfl | rfl | ⟨-, -, htokens⟩
    · contradiction
    · contradiction
    · obtain ⟨run, found, rfl, hread⟩ := exists_read_of_isNesting htokens hnesting
      rw [← Statement.readAt_zero] at hread
      exact ⟨rfl, run, found, rfl, hread⟩

/-- A map in an assignment is too deep for three levels and not for five, and is
then the same for any more. -/
theorem parse_nested_map :
    (∀ field, Limits.get { nestingDepth := 5 } field ≤ Limits.get {} field) ∧
      parse {} "x = \x7b a : b \x7d ;" = .ok [.assign ⟨"x", none,
        .map [(.atom (.identifier "a"), .atom (.identifier "b"))]⟩] ∧
      ∃ error, parse { nestingDepth := 3 } "x = \x7b a : b \x7d ;" = .error error ∧
        error.IsNesting ∧
        error.message =
          "Parsing nesting too deep: 3 levels (max 3). Consider simplifying." := by
  have hle : ∀ field, Limits.get { nestingDepth := 5 } field ≤ Limits.get {} field := by
    intro field
    cases field <;> decide
  have hfive : parse { nestingDepth := 5 } "x = \x7b a : b \x7d ;" = .ok [.assign ⟨"x", none,
      .map [(.atom (.identifier "a"), .atom (.identifier "b"))]⟩] := by
    decide +kernel
  have hthree : parse { nestingDepth := 3 } "x = \x7b a : b \x7d ;" =
      .error (.statement
        [.identifier "x", .mark .equals, .mark .openBrace, .identifier "a", .mark .colon,
          .identifier "b", .mark .closeBrace]
        (.tooDeep 3 (some (.mark .openBrace)))) := by
    decide +kernel
  exact ⟨hle, (parse_of_limits_le.1 _ _ _ hle).1 _ hfive, _, hthree, trivial,
    (parse_of_limits_le.2 _ _ _ hthree trivial).1⟩

end Program

end Dataflow
