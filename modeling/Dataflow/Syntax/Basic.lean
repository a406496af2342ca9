import Dataflow.Program.Basic
import Dataflow.SyntaxError

/-!
# Readers

A reader takes a value off the front of a list of items.  When it succeeds, it
leaves fewer items than it was given, so anything that repeats it comes to an
end.  The readers for the parts of a statement read the tokens of one statement,
and they fail with a fault.
-/

namespace Dataflow

structure Reader (τ ε α : Type) where
  read : List τ → Except ε (α × List τ)
  shrinks : ∀ {items rest : List τ} {value : α},
    read items = .ok (value, rest) → rest.length < items.length

/-- A reader for a part of a statement. -/
abbrev TokenReader (α : Type) := Reader Token Fault α

/-- The atom that a token is, if it is a name or a literal. -/
def Token.atom? (token : Token) : Option Atom :=
  match token.role with
  | .identifier => some (.identifier token.text)
  | .literal => some (.literal token.text)
  | _ => none

/-- The first token, which has to be accepted, and the tokens after it. -/
def expectToken (accepts : Token → Bool) (expected : Expectation) :
    List Token → Except Fault (Token × List Token)
  | [] => .error .missing
  | token :: rest =>
    if accepts token then .ok (token, rest) else .error (.unexpected expected token)

/-- The first token, which has to play a role, and the tokens after it. -/
def expectRole (role : Token.Role) (expected : Expectation) :
    List Token → Except Fault (Token × List Token) :=
  expectToken (fun token => token.role = role) expected

theorem length_lt_of_expectToken {accepts : Token → Bool} {expected : Expectation}
    {tokens rest : List Token} {token : Token}
    (hread : expectToken accepts expected tokens = .ok (token, rest)) :
    rest.length < tokens.length := by
  unfold expectToken at hread
  repeat' split at hread
  all_goals simp_all

theorem length_lt_of_expectRole {role : Token.Role} {expected : Expectation}
    {tokens rest : List Token} {token : Token}
    (hread : expectRole role expected tokens = .ok (token, rest)) :
    rest.length < tokens.length :=
  length_lt_of_expectToken hread

/-- The reader for a part that would nest too deep. -/
def TokenReader.tooDeep {α : Type} (limit : Nat) : TokenReader α where
  read tokens := .error (.tooDeep limit tokens.head?)
  shrinks hread := nomatch hread

end Dataflow
