import Dataflow.Token.Basic

/-!
# Syntax errors

What can be wrong with a source is a closed list of causes.  A fault is what is
wrong with the tokens of one statement; a syntax error is the refusal of a whole
source, which for a fault also holds the statement it was found in.  The
offending token, the context and the message of an error are functions of its
cause.
-/

namespace Dataflow

/-- What a statement needs at the place where it goes wrong. -/
inductive Expectation where
  | assignedName
  | assignment
  | flow
  | flowStep
  | mapStart
  | mapColon
  | patternStart
  | patternSeparator
  | propertyName
  | propertyAssignment
  | propertyValue
  | propertySeparator
  | typeName
  | outputType
  | importedName
  | importColon
  | importArrow
  deriving DecidableEq, Inhabited

def Expectation.describe : Expectation → String
  | .assignedName => "identifier for assignment"
  | .assignment => "assignment operator [=]"
  | .flow => "a flow expression"
  | .flowStep => "[->] or a flow expression"
  | .mapStart => "the start of a map expression [\x7b]"
  | .mapColon => "[:] after a map key"
  | .patternStart => "a literal or identifier to start a pattern-matching expression"
  | .patternSeparator => "a pattern separator [,] or terminator [)]"
  | .propertyName => "identifier for config property"
  | .propertyAssignment => "assignment operator [=] for assigning to config property"
  | .propertyValue => "a config property value"
  | .propertySeparator => "a property separator [,] or terminator [)]"
  | .typeName => "identifier for a type after [:]"
  | .outputType => "an identifier for an output type after [->]"
  | .importedName => "identifier for the imported flow"
  | .importColon => "[:] after the imported name"
  | .importArrow => "[->] between input and output types"

/-- What is wrong with the tokens of one statement.  A fault holds the token
that it was found at; a fault without one was found at the statement's end. -/
inductive Fault where
  /-- The nesting limit is used up. -/
  | tooDeep (limit : Nat) (found : Option Token)
  /-- Something else is needed in the place of `found`. -/
  | unexpected (expected : Expectation) (found : Token)
  /-- `found` is no value for a property. -/
  | badPropertyValue (found : Token)
  /-- The statement ends too early. -/
  | missing
  /-- The statement ends inside the parentheses of a configuration. -/
  | configEnded (expected : Expectation)
  /-- Nothing follows an arrow. -/
  | danglingArrow (arrow : Token)
  /-- An import has the wrong number of tokens. -/
  | importLength (keyword : Token) (count : Nat)
  deriving DecidableEq

namespace Fault

/-- The token that the fault was found at, unless it was found at the end. -/
def found? : Fault → Option Token
  | .tooDeep _ found => found
  | .unexpected _ found => some found
  | .badPropertyValue found => some found
  | .missing => none
  | .configEnded _ => none
  | .danglingArrow arrow => some arrow
  | .importLength keyword _ => some keyword

/-- The message for a fault in a statement whose last token has the text
`last`. -/
def message (last : String) : Fault → String
  | .tooDeep limit _ =>
    s!"Parsing nesting too deep: {limit} levels (max {limit}). Consider simplifying."
  | .unexpected expected found =>
    s!"Expected {expected.describe} but found [{found.text}]."
  | .badPropertyValue found =>
    "Expected an identifier or literal as the value of a config property, but found " ++
      s!"[{found.text}]."
  | .missing => s!"Expected more tokens after [{last}] but found none."
  | .configEnded expected =>
    s!"Expected {expected.describe} but the config expression ran out of tokens after " ++
      s!"[{last}]."
  | .danglingArrow _ =>
    "The [->] operator must be followed by a flow expression, but none was found."
  | .importLength _ count =>
    "Expected [import <name> : <Type>] or [import <name> : <Input> -> <Output>] but found " ++
      s!"{count} tokens."

end Fault

/-- Why a source is refused. -/
inductive SyntaxError where
  | inputTooLarge (size limit : Nat)
  | tooManyTokens (limit : Nat)
  /-- The tokens after the last semicolon, when there are any. -/
  | unterminated (tokens : List Token)
  /-- The tokens of a statement have a fault. -/
  | statement (tokens : List Token) (fault : Fault)
  deriving DecidableEq

namespace SyntaxError

/-- The text of the last token, or nothing. -/
def lastText (tokens : List Token) : String :=
  (tokens.getLast?.map Token.text).getD ""

def message : SyntaxError → String
  | .inputTooLarge size limit =>
    s!"Input too large: {size} bytes (max: {limit} bytes)."
  | .tooManyTokens limit =>
    s!"Token limit exceeded: more than {limit} tokens. File is too complex."
  | .unterminated tokens =>
    s!"Expected [;] to terminate statement but ran out of tokens after [{lastText tokens}]."
  | .statement tokens fault => fault.message (lastText tokens)

/-- The token to blame: where the fault was found, or else the last one. -/
def token? : SyntaxError → Option Token
  | .inputTooLarge _ _ => none
  | .tooManyTokens _ => none
  | .unterminated tokens => tokens.getLast?
  | .statement tokens fault => fault.found?.or tokens.getLast?

/-- The text of the statement in which the error lies. -/
def context? : SyntaxError → Option String
  | .inputTooLarge _ _ => none
  | .tooManyTokens _ => none
  | .unterminated tokens => some (Token.joinTexts tokens)
  | .statement tokens _ => some (Token.joinTexts tokens)

/-- A message as it is shown, with the statement it belongs to. -/
def displayText (message : String) (context? : Option String) : String :=
  match context? with
  | none => s!"syntax error: {message}"
  | some context => s!"syntax error: {message} in statement [{context}]"

def display (error : SyntaxError) : String :=
  displayText error.message error.context?

/-- Two errors are alike when they say the same of the same token in the same
statement. -/
def alike (left right : SyntaxError) : Bool :=
  left.message = right.message && left.token? = right.token? &&
    left.context? = right.context?

end SyntaxError

end Dataflow
