/-!
# Tokens

A token is a word of the source together with its kind.  The kind follows from
the text alone (`Token.ofText`), but a token list may also come from elsewhere,
so a token can pair any kind with any text.  What the grammar can do with a
token is its role: only a token whose kind and text fit together plays a part
other than a name, a literal or nothing at all.

A numeral may be written with the decimal digits of any script.  The digits of
one script are ten consecutive code points, so a script is given by its zero.
-/

namespace Dataflow

inductive Token.Kind where
  | keyword
  | symbol
  | operator
  | identifier
  | numeral
  deriving DecidableEq, Inhabited

structure Token where
  kind : Token.Kind
  text : String
  deriving DecidableEq, Inhabited

/-- The part that a token can play in a statement. -/
inductive Token.Role where
  | semicolon
  | comma
  | colon
  | openBrace
  | closeBrace
  | openParen
  | closeParen
  | arrow
  | equals
  | importWord
  | exportWord
  | identifier
  | literal
  | other
  deriving DecidableEq, Inhabited

namespace Token

def keywords : List String :=
  ["export", "import", "as", "type", "true", "false", "default"]

def symbols : List String :=
  [";", ",", ":", "\x7b", "\x7d", "(", ")", "<", ">"]

def operators : List String :=
  ["->", "="]

/-- The code point of zero in each block of ten decimal digits. -/
def digitZeros : List Nat := [
  0x0030, 0x0660, 0x06F0, 0x07C0, 0x0966, 0x09E6, 0x0A66, 0x0AE6, 0x0B66,
  0x0BE6, 0x0C66, 0x0CE6, 0x0D66, 0x0DE6, 0x0E50, 0x0ED0, 0x0F20, 0x1040,
  0x1090, 0x17E0, 0x1810, 0x1946, 0x19D0, 0x1A80, 0x1A90, 0x1B50, 0x1BB0,
  0x1C40, 0x1C50, 0xA620, 0xA8D0, 0xA900, 0xA9D0, 0xA9F0, 0xAA50, 0xABF0,
  0xFF10, 0x104A0, 0x10D30, 0x11066, 0x110F0, 0x11136, 0x111D0, 0x112F0,
  0x11450, 0x114D0, 0x11650, 0x116C0, 0x11730, 0x118E0, 0x11950, 0x11C50,
  0x11D50, 0x11DA0, 0x11F50, 0x16A60, 0x16AC0, 0x16B50, 0x1D7CE, 0x1D7D8,
  0x1D7E2, 0x1D7EC, 0x1D7F6, 0x1E140, 0x1E2F0, 0x1E4F0, 0x1E950, 0x1FBF0]

/-- A decimal digit is at most nine code points after the zero of some script. -/
def isDecimalDigit (c : Char) : Bool :=
  digitZeros.any fun first => first ≤ c.toNat && c.toNat < first + 10

/-- A numeral holds decimal digits and at most one point. -/
def isNumeral (text : String) : Bool :=
  text.toList.all (fun c => c == '.' || isDecimalDigit c) &&
    text.toList.count '.' ≤ 1

/-- The kind of a word: the first of these classes that holds it. -/
def kindOfText (text : String) : Kind :=
  if keywords.contains text then .keyword
  else if symbols.contains text then .symbol
  else if operators.contains text then .operator
  else if isNumeral text then .numeral
  else .identifier

def ofText (text : String) : Token :=
  ⟨kindOfText text, text⟩

/-- `token` is the one of this kind with this text. -/
def is (token : Token) (kind : Kind) (text : String) : Bool :=
  token.kind = kind && token.text = text

def isIdentifier (token : Token) : Bool :=
  token.kind = .identifier

def isLiteral (token : Token) : Bool :=
  token.kind = .numeral

/-- The role of a symbol with this text. -/
def symbolRole (text : String) : Role :=
  if text = ";" then .semicolon
  else if text = "," then .comma
  else if text = ":" then .colon
  else if text = "\x7b" then .openBrace
  else if text = "\x7d" then .closeBrace
  else if text = "(" then .openParen
  else if text = ")" then .closeParen
  else .other

/-- The role of an operator with this text. -/
def operatorRole (text : String) : Role :=
  if text = "->" then .arrow
  else if text = "=" then .equals
  else .other

/-- The role of a keyword with this text. -/
def keywordRole (text : String) : Role :=
  if text = "import" then .importWord
  else if text = "export" then .exportWord
  else .other

/-- Names and literals play their role whatever their text is. -/
def role (token : Token) : Role :=
  match token.kind with
  | .keyword => keywordRole token.text
  | .symbol => symbolRole token.text
  | .operator => operatorRole token.text
  | .identifier => .identifier
  | .numeral => .literal

/-- The texts of a token list, one blank between any two. -/
def joinTexts (tokens : List Token) : String :=
  " ".intercalate (tokens.map Token.text)

end Token

end Dataflow
