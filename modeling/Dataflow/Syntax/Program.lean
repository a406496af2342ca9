import Dataflow.Program.Alike
import Dataflow.Syntax.Statement
import Dataflow.Token.Stream

/-!
# Reading programs

A program is cut at its semicolons, and each statement is read by itself.  The
first statement that has a fault is the error of the program.  Tokens after the
last semicolon are an error only when every statement before them is read.
-/

namespace Dataflow.Program

/-- Statements after those already read, when the tokens `run` of the next one
are already found.  Both lists are in reverse order. -/
def readOnto (limit : Nat) (statements : List Statement) (run : List Token) :
    List Token → Except SyntaxError Program
  | [] =>
    if run.isEmpty then .ok statements.reverse else .error (.unterminated run.reverse)
  | token :: rest =>
    if token.role = .semicolon then
      match Statement.read limit run.reverse with
      | .error fault => .error (.statement run.reverse fault)
      | .ok statement => readOnto limit (statement :: statements) [] rest
    else readOnto limit statements (token :: run) rest

/-- The program that some tokens are, with expressions nested less than `limit`
levels deep. -/
def ofTokens (limit : Nat) (tokens : List Token) : Except SyntaxError Program :=
  readOnto limit [] [] tokens

/-- The program that a source is, within the limits. -/
def parse (limits : Limits) (source : String) : Except SyntaxError Program :=
  match lex limits source with
  | .error error => .error error
  | .ok tokens => ofTokens limits.nestingDepth tokens

/-- The same outcome: programs that are alike, or errors that are. -/
def alikeOutcome : Except SyntaxError Program → Except SyntaxError Program → Bool
  | .ok left, .ok right => alike left right
  | .error left, .error right => left.alike right
  | _, _ => false

end Dataflow.Program
