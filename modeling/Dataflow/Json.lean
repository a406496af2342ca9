/-!
# Compact JSON

The values that programs are written as, and their text without any blanks.  In
a string the quotation mark, the backslash and the control characters below the
blank are escaped, five of them by a letter, and all else stands as it is.
-/

namespace Dataflow

inductive Json where
  | null
  | string (text : String)
  | array (items : List Json)
  | object (members : List (String × Json))
  deriving Inhabited

namespace Json

/-- The lower-case hexadecimal digit for a number below sixteen. -/
def hexDigit (n : Nat) : Char :=
  if n < 10 then Char.ofNat ('0'.toNat + n) else Char.ofNat ('a'.toNat + (n - 10))

/-- How a character is written inside a string. -/
def escapeChar (c : Char) : List Char :=
  if c = '"' then ['\\', '"']
  else if c = '\\' then ['\\', '\\']
  else if c = '\x08' then ['\\', 'b']
  else if c = '\x0c' then ['\\', 'f']
  else if c = '\n' then ['\\', 'n']
  else if c = '\r' then ['\\', 'r']
  else if c = '\t' then ['\\', 't']
  else if c.toNat < 0x20 then
    ['\\', 'u', '0', '0', hexDigit (c.toNat / 16), hexDigit (c.toNat % 16)]
  else [c]

/-- The text `out` followed by a string between quotation marks. -/
def quoteOnto (out : String) (text : String) : String :=
  (text.toList.foldl (fun out c => (escapeChar c).foldl String.push out)
    (out.push '"')).push '"'

mutual

/-- The text `out` followed by the text of a value. -/
def writeOnto (out : String) : Json → String
  | .null => out ++ "null"
  | .string text => quoteOnto out text
  | .array items => (writeItemsOnto (out.push '[') items).push ']'
  | .object members => (writeMembersOnto (out.push '\x7b') members).push '\x7d'

/-- The text `out` followed by the texts of some values with commas between. -/
def writeItemsOnto (out : String) : List Json → String
  | [] => out
  | [item] => item.writeOnto out
  | item :: rest => writeItemsOnto ((item.writeOnto out).push ',') rest

/-- The text `out` followed by the texts of some members with commas between. -/
def writeMembersOnto (out : String) : List (String × Json) → String
  | [] => out
  | [(name, value)] => value.writeOnto ((quoteOnto out name).push ':')
  | (name, value) :: rest =>
    writeMembersOnto ((value.writeOnto ((quoteOnto out name).push ':')).push ',') rest

end

def compact (value : Json) : String :=
  value.writeOnto ""

end Json

end Dataflow
