import Dataflow.Syntax.Flow

/-!
# Reading statements

The tokens of one statement, without its semicolon, are an import, an export, an
assignment or nothing.  A statement is at the first nesting level, what it
imports or assigns at the next, and the assignment of an export one level deeper.
-/

namespace Dataflow

/-- A type, or an arrow between an input and an output type. -/
def Signature.read (tokens : List Token) : Except Fault (Signature × List Token) := do
  let (base, rest) ← expectRole .identifier .typeName tokens
  match rest with
  | [] => return (.simple base.text, [])
  | next :: after =>
    if next.role = .arrow then
      let (output, rest) ← expectRole .identifier .outputType after
      return (.flow base.text output.text, rest)
    else
      return (.simple base.text, next :: after)

namespace Assignment

/-- The type that may be declared after the name. -/
def readSignature (tokens : List Token) :
    Except Fault (Option Signature × List Token) :=
  match tokens with
  | [] => .error .missing
  | next :: rest =>
    if next.role = .colon then do
      let (signature, rest) ← Signature.read rest
      return (some signature, rest)
    else
      return (none, next :: rest)

/-- A name, perhaps with a type, an equals sign and a flow up to the end. -/
def read (limit room : Nat) (tokens : List Token) : Except Fault Assignment :=
  match room with
  | 0 => .error (.tooDeep limit tokens.head?)
  | room + 1 => do
    let (name, rest) ← expectRole .identifier .assignedName tokens
    let (signature, rest) ← readSignature rest
    let (_, rest) ← expectRole .equals .assignment rest
    if rest.isEmpty then
      .error .missing
    else
      let (value, _) ← (Expr.flowReader limit (fun _ => false) room).read rest
      return { name := name.text, signature, value }

end Assignment

namespace Statement

/-- An import, given its keyword and the tokens after it. -/
def readImport (limit room : Nat) (keyword : Token) (tokens : List Token) :
    Except Fault Statement :=
  match room with
  | 0 => .error (.tooDeep limit (some keyword))
  | _ + 1 =>
    if tokens.length ≠ 3 ∧ tokens.length ≠ 5 then
      .error (.importLength keyword (tokens.length + 1))
    else do
      let (name, rest) ← expectRole .identifier .importedName tokens
      let (_, rest) ← expectRole .colon .importColon rest
      let (signature, rest) ← Signature.read rest
      match rest with
      | [] => return .importName name.text signature
      | next :: _ => .error (.unexpected .importArrow next)

/-- An export, given its keyword and the tokens after it. -/
def readExport (limit room : Nat) (keyword : Token) (tokens : List Token) :
    Except Fault Statement :=
  match room with
  | 0 => .error (.tooDeep limit (some keyword))
  | room + 1 =>
    if tokens.isEmpty then
      .error .missing
    else do
      return .exportFlow (← Assignment.read limit room tokens)

/-- The statement that some tokens are. -/
def read (limit : Nat) (tokens : List Token) : Except Fault Statement :=
  match limit with
  | 0 => .error (.tooDeep limit tokens.head?)
  | room + 1 =>
    match tokens with
    | [] => .ok .empty
    | first :: rest =>
      match first.role with
      | .importWord => readImport limit room first rest
      | .exportWord => readExport limit room first rest
      | .identifier => do
        return .assign (← Assignment.read limit room (first :: rest))
      | _ => .error (.unexpected .assignedName first)

end Statement

end Dataflow
