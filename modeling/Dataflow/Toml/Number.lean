/-!
# Digits and numbers of TOML

Digits have any base up to sixteen and either case.  Integers and floats are
recognized as whole words.  Single underscores may stand between digits.  A decimal
integer has no leading zeros; hexadecimal, octal and binary integers start with a
letter after a zero and have no sign.  Integers fit in 64 bits with a sign.  A float
that would be rounded to positive infinity is refused.
-/

namespace Dataflow.Toml

/-- The value of a digit in a base up to sixteen. -/
def digit? (base : Nat) (c : Char) : Option Nat :=
  let value :=
    if c.isDigit then c.toNat - '0'.toNat
    else if 'a' ≤ c && c ≤ 'f' then c.toNat - 'a'.toNat + 10
    else if 'A' ≤ c && c ≤ 'F' then c.toNat - 'A'.toNat + 10
    else base
  if value < base then some value else none

/-- The number with these digits, the first one being the highest. -/
def ofDigits (base : Nat) (digits : List Nat) : Nat :=
  digits.foldl (fun value digit => base * value + digit) 0

namespace Number

/-- The digits of a word in which single underscores may stand between digits. -/
def digits? (base : Nat) (word : List Char) : Option (List Nat) := do
  let groups := word.splitOn '_'
  if groups.any List.isEmpty then
    none
  else
    groups.flatten.mapM (digit? base)

/-- The digits of a decimal number without leading zeros. -/
def decimal? (word : List Char) : Option (List Nat) :=
  if word.head? = some '0' ∧ word.length ≠ 1 then none else digits? 10 word

/-- Whether a word starts with a minus sign, and the word without its sign. -/
def splitSign : List Char → Bool × List Char
  | '-' :: rest => (true, rest)
  | '+' :: rest => (false, rest)
  | word => (false, word)

/-- The value of a word that is an integer, of any size. -/
def unbounded? (word : List Char) : Option Int :=
  match word with
  | '0' :: 'x' :: digits => (digits? 16 digits).map fun ds => Int.ofNat (ofDigits 16 ds)
  | '0' :: 'o' :: digits => (digits? 8 digits).map fun ds => Int.ofNat (ofDigits 8 ds)
  | '0' :: 'b' :: digits => (digits? 2 digits).map fun ds => Int.ofNat (ofDigits 2 ds)
  | word =>
    let (negative, digits) := splitSign word
    (decimal? digits).map fun ds =>
      let value := Int.ofNat (ofDigits 10 ds)
      if negative then -value else value

/-- The value of a word that is an integer. -/
def integer? (word : List Char) : Option Int :=
  (unbounded? word).filter fun value =>
    -Int.pow 2 63 ≤ value && value < Int.pow 2 63

/-- The least number that is rounded to infinity: halfway from the largest
finite one to the next power of two. -/
def infinityThreshold : Nat := Nat.pow 2 1024 - Nat.pow 2 970

/-- Whether the number with these digits, times a power of ten, is rounded to
infinity.  Its count of digits settles all but the nearest cases. -/
def roundsToInfinity (digits : List Nat) (exponent : Int) : Bool :=
  let significant := digits.dropWhile (· = 0)
  let places := significant.length + exponent
  if significant.isEmpty || places < 309 then false
  else if 309 < places then true
  else
    infinityThreshold * Nat.pow 10 (-exponent).toNat ≤
      ofDigits 10 significant * Nat.pow 10 exponent.toNat

/-- The value of an exponent, without the letter before it. -/
def exponent? (word : List Char) : Option Int :=
  let (negative, digits) := splitSign word
  (digits? 10 digits).map fun ds =>
    let value := Int.ofNat (ofDigits 10 ds)
    if negative then -value else value

/-- Whether a word without a sign is a finite float that is not rounded to
infinity, or one that is when `mayOverflow`. -/
def isFinite (mayOverflow : Bool) (word : List Char) : Bool :=
  let isE (c : Char) : Bool := c == 'e' || c == 'E'
  let mantissa := word.takeWhile fun c => !isE c
  let power := (word.dropWhile fun c => !isE c).drop 1
  let whole := mantissa.takeWhile (· != '.')
  let fraction := (mantissa.dropWhile (· != '.')).drop 1
  let hasPower := mantissa.length < word.length
  let hasFraction := whole.length < mantissa.length
  match decimal? whole, digits? 10 fraction, exponent? power with
  | some wholeDigits, fractionDigits?, exponent? =>
    (hasPower || hasFraction) && (exponent?.isSome || !hasPower) &&
      (fractionDigits?.isSome || !hasFraction) &&
      let fractionDigits := fractionDigits?.getD []
      mayOverflow || !roundsToInfinity (wholeDigits ++ fractionDigits)
        (exponent?.getD 0 - fractionDigits.length)
  | none, _, _ => false

/-- Whether a word is a float. -/
def isFloat (word : List Char) : Bool :=
  let (negative, unsigned) := splitSign word
  unsigned = ['i', 'n', 'f'] || unsigned = ['n', 'a', 'n'] || isFinite negative unsigned

end Number

end Dataflow.Toml
