import Dataflow.Proofs.Cursor.Scan
import Dataflow.Syntax.Program

/-!
# The parser of statements with a cursor

The same grammar as the readers of lists, read by methods that move a cursor and call one
another.  A method that nests is given its depth and hands the next depth on.
-/

namespace Dataflow.Scan

variable (tokens : List Token) (limit : Nat)

/-! ## Settings -/

/-- The next token of a configuration. -/
def configToken (expected : Expectation) : Scan Fault Token :=
  call .configToken do
    match ← peek? tokens 0 with
    | some token =>
      advance
      return token
    | none => throw (.configEnded expected)

/-- One property, and whether another follows. -/
def propertyRound (settings : Settings) : Scan Fault (Round Settings Settings) := do
  let name ← configToken tokens .propertyName
  if name.role ≠ .identifier then throw (.unexpected .propertyName name)
  else
    let equals ← configToken tokens .assignment
    if equals.role ≠ .equals then throw (.unexpected .propertyAssignment equals)
    else
      let token ← configToken tokens .propertyValue
      match token.atom? with
      | none => throw (.badPropertyValue token)
      | some value =>
        let separator ← configToken tokens .propertySeparator
        match separator.role with
        | .comma => return .again (settings.insert name.text value)
        | .closeParen => return .done (settings.insert name.text value)
        | _ => throw (.unexpected .propertySeparator separator)

/-- The settings after an opening parenthesis. -/
def settings : Scan Fault Settings :=
  between tokens .closeParen .empty (loop Scanner.left (propertyRound tokens) .empty)

/-- A configured component, if there is one at the cursor: a name with a parenthesis
after it. -/
def config? : Scan Fault (Option (String × Settings)) :=
  record .config none (fun config => if config.isSome then .value else .nothing) do
    match ← peek? tokens 0 with
    | none => return none
    | some name =>
      let next ← peek? tokens 1
      if name.role = .identifier ∧ next.map Token.role = some .openParen then
        advance
        advance
        return some (name.text, ← settings tokens)
      else return none

/-! ## Patterns -/

/-- One argument, and whether another follows. -/
def argRound (arg : Scan Fault Pattern) (args : List Pattern) :
    Scan Fault (Round (List Pattern) (List Pattern)) := do
  let pattern ← arg
  let separator ← expectToken tokens
  match separator.role with
  | .comma =>
    advance
    return .again (pattern :: args)
  | .closeParen =>
    advance
    return .done (pattern :: args).reverse
  | _ => throw (.unexpected .patternSeparator separator)

/-- The arguments of a constructor after its opening parenthesis. -/
def args (arg : Scan Fault Pattern) : Scan Fault (List Pattern) :=
  between tokens .closeParen [] (loop Scanner.left (argRound tokens arg) [])

/-- A pattern whose arguments are read by `arg`. -/
def keyWith (arg : Scan Fault Pattern) : Scan Fault Pattern := do
  let first ← expectToken tokens
  match first.atom? with
  | none => throw (.unexpected .patternStart first)
  | some (.literal text) =>
    advance
    return .atom (.literal text)
  | some (.identifier text) =>
    advance
    if ← nextIs tokens .openParen then
      advance
      return .constructor text (← args tokens arg)
    else return .atom (.identifier text)

def key (depth : Nat) : Scan Fault Pattern :=
  nested tokens limit .key depth fun _ => keyWith tokens (key (depth + 1))
termination_by limit - depth

/-! ## Flows and maps -/

/-- One step or one arrow of a flow, or its end. -/
def stepRound (map : Scan Fault (List (Pattern × Expr))) (ends : Token → Bool)
    (steps : List Expr) : Scan Fault (Round (List Expr) (List Expr)) := do
  match ← peek? tokens 0 with
  | none => return .done steps.reverse
  | some token =>
    if ends token then return .done steps.reverse
    else if token.role = .arrow then
      advance
      match ← peek? tokens 0 with
      | none => throw (.danglingArrow token)
      | some next => if ends next then throw (.danglingArrow token) else return .again steps
    else if token.role = .openBrace then
      return .again (.map (← map) :: steps)
    else
      match ← config? tokens with
      | some (name, settings) => return .again (.config name settings :: steps)
      | none =>
        match token.atom? with
        | none => throw (.unexpected .flowStep token)
        | some value =>
          advance
          return .again (.atom value :: steps)

/-- The expression that some steps are. -/
def finish (steps : List Expr) : Scan Fault Expr := do
  match Expr.ofSteps? steps with
  | some expr => return expr
  | none =>
    match ← peek? tokens 0 with
    | none => throw .missing
    | some token => throw (.unexpected .flow token)

/-- A flow whose maps are read by `map`. -/
def flowWith (map : Scan Fault (List (Pattern × Expr))) (ends : Token → Bool) :
    Scan Fault Expr := do
  finish tokens (← loop Scanner.left (stepRound tokens map ends) [])

/-- One entry of a map, and whether another follows. -/
def entryRound (key : Scan Fault Pattern) (value : Scan Fault Expr)
    (entries : List (Pattern × Expr)) :
    Scan Fault (Round (List (Pattern × Expr)) (List (Pattern × Expr))) := do
  let pattern ← key
  let _ ← consume tokens .colon .mapColon
  let expr ← value
  let separator ← expectToken tokens
  advance
  if separator.role = .closeBrace then return .done ((pattern, expr) :: entries).reverse
  else return .again ((pattern, expr) :: entries)

/-- A map whose keys are read by `key` and whose values by `value`. -/
def mapWith (key : Scan Fault Pattern) (value : Scan Fault Expr) :
    Scan Fault (List (Pattern × Expr)) := do
  let _ ← consume tokens .openBrace .mapStart
  between tokens .closeBrace [] (loop Scanner.left (entryRound tokens key value) [])

mutual

def flow (ends : Token → Bool) (depth : Nat) : Scan Fault Expr :=
  nested tokens limit .flow depth fun _ => flowWith tokens (map (depth + 1)) ends
termination_by limit - depth

def map (depth : Nat) : Scan Fault (List (Pattern × Expr)) :=
  nested tokens limit .map depth fun _ =>
    mapWith tokens (key tokens limit (depth + 1)) (flow Token.endsEntry (depth + 1))
termination_by limit - depth

end

/-! ## Statements -/

/-- A type, or an arrow between an input and an output type. -/
def signature : Scan Fault Signature :=
  call .signature do
    let base ← consume tokens .identifier .typeName
    if ← nextIs tokens .arrow then
      advance
      let output ← consume tokens .identifier .outputType
      return .flow base.text output.text
    else return .simple base.text

/-- The type that may be declared after the name. -/
def signature? : Scan Fault (Option Signature) := do
  let next ← expectToken tokens
  if next.role = .colon then
    advance
    return some (← signature tokens)
  else return none

/-- A name, perhaps with a type, an equals sign and a flow up to the end. -/
def assignment (depth : Nat) : Scan Fault Assignment :=
  nested tokens limit .assignment depth fun _ => do
    let name ← consume tokens .identifier .assignedName
    let signature ← signature? tokens
    let _ ← consume tokens .equals .assignment
    let _ ← expectToken tokens
    let value ← flow tokens limit (fun _ => false) (depth + 1)
    return { name := name.text, signature, value }

/-- An import, given its keyword, which the cursor is still at. -/
def importName (keyword : Token) (depth : Nat) : Scan Fault Statement :=
  nested tokens limit .importName depth fun _ => do
    let cursor := (← get).cursor
    let length := cursor.stop - cursor.current
    if length ≠ 4 ∧ length ≠ 6 then throw (.importLength keyword length)
    else
      advance
      let name ← consume tokens .identifier .importedName
      let _ ← consume tokens .colon .importColon
      let signature ← signature tokens
      match ← peek? tokens 0 with
      | none => return .importName name.text signature
      | some next => throw (.unexpected .importArrow next)

/-- An export, whose keyword the cursor is still at. -/
def exportFlow (depth : Nat) : Scan Fault Statement :=
  nested tokens limit .exportFlow depth fun _ => do
    advance
    let _ ← expectToken tokens
    return .exportFlow (← assignment tokens limit (depth + 1))

def statement (depth : Nat) : Scan Fault Statement :=
  nested tokens limit .statement depth fun _ => do
    match ← peek? tokens 0 with
    | none => return .empty
    | some first =>
      match first.role with
      | .importWord => importName tokens limit first (depth + 1)
      | .exportWord => exportFlow tokens limit (depth + 1)
      | .identifier => return .assign (← assignment tokens limit (depth + 1))
      | _ => throw (.unexpected .assignedName first)

/-! ## Programs -/

/-- The statement that the cursor is put at the start of. -/
def statementFrom (cursor : Cursor) : Scan SyntaxError Statement := do
  modify fun scanner => { scanner with cursor }
  (statement tokens limit 0).adapt (.statement (cursor.window tokens))

/-- The next statement, which goes up to the next semicolon.  Afterwards the cursor is put
behind the semicolon, wherever the statement has left it. -/
def statementRound (statements : List Statement) :
    Scan SyntaxError (Round (List Statement) Program) := do
  let start := (← get).cursor.current
  if start < tokens.length then
    match (tokens.drop start).findIdx? fun token => token.role = .semicolon with
    | none => throw (.unterminated (tokens.drop start))
    | some offset =>
      let stop := start + offset
      let statement ← statementFrom tokens limit { start, current := start, stop }
      modify fun scanner => scanner.moveTo (stop + 1)
      return .again (statement :: statements)
  else return .done statements.reverse

/-- How many tokens are behind the position of the cursor. -/
def leftOf (scanner : Scanner) : Nat :=
  tokens.length - scanner.cursor.current

def program : Scan SyntaxError Program :=
  loop (leftOf tokens) (statementRound tokens limit) []

end Dataflow.Scan
