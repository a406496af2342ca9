import Dataflow.Proofs.Cursor.Basic
import Dataflow.SyntaxError

/-!
# Scanning with a cursor

A scan moves a cursor along the tokens of a statement and ends with a value or an
error, or does not end at all.  Its state outlives an error, and it keeps a record of
the calls that were made, so that what is true of every call can be told from the state
that a scan ends in, also where it fails in the middle.
-/

namespace Dataflow

/-- What can be called in the course of a scan and moves the cursor. -/
inductive Method where
  | advance
  | consume
  | configToken
  | signature
  | config
  | key
  | map
  | flow
  | assignment
  | importName
  | exportFlow
  | statement
  deriving DecidableEq, Inhabited

/-- How a call ended: with a value, without one, or with an error. -/
inductive Answer where
  | value
  | nothing
  | fault
  deriving DecidableEq, Inhabited

/-- A call that has ended, with its nesting depth if it was given one. -/
structure Call where
  method : Method
  depth : Option Nat
  before : Cursor
  after : Cursor
  answer : Answer
  deriving DecidableEq, Inhabited

/-- The state of a scan: where the cursor is, and the calls that have ended, the last
one first. -/
structure Scanner where
  cursor : Cursor
  calls : List Call
  deriving DecidableEq, Inhabited

/-- The state with one more call in its record. -/
def Scanner.note (scanner : Scanner) (call : Call) : Scanner :=
  { scanner with calls := call :: scanner.calls }

/-- The state with the cursor at another position. -/
def Scanner.moveTo (scanner : Scanner) (position : Nat) : Scanner :=
  { scanner with cursor := { scanner.cursor with current := position } }

/-- How many tokens of the statement are still before the cursor. -/
def Scanner.left (scanner : Scanner) : Nat :=
  scanner.cursor.stop - scanner.cursor.current

/-- A scan without an outcome does not end. -/
abbrev Scan (ε : Type) := ExceptT ε (StateT Scanner Option)

/-- How a round of a loop ends: the loop goes on or has its result. -/
inductive Round (σ β : Type) where
  | again (state : σ)
  | done (result : β)

namespace Scan

section Combinators

variable {ε α σ β : Type}

/-- Rounds until one of them has the result.  What is left to do is counted by `left`: a round
after which there is not less of it, and which would still go on, is taken not to end. -/
def loop (left : Scanner → Nat) (round : σ → Scan ε (Round σ β)) (state : σ) : Scan ε β :=
  fun scanner =>
    match round state scanner with
    | none => none
    | some (.error error, after) => some (.error error, after)
    | some (.ok (.done result), after) => some (.ok result, after)
    | some (.ok (.again later), after) =>
      if left after < left scanner then loop left round later after else none
termination_by scanner => left scanner

/-- What follows a round that was begun in the state `before`. -/
def afterRound (left : Scanner → Nat) (round : σ → Scan ε (Round σ β)) (before : Scanner) :
    Round σ β → Scan ε β
  | .done result => return result
  | .again later => fun after =>
    if left after < left before then loop left round later after else none

/-- How a call with this outcome ended, when `answer` tells it for values. -/
def answerOf (answer : α → Answer) : Except ε α → Answer
  | .error _ => .fault
  | .ok value => answer value

/-- A scan as a call of a method: it is recorded when it has ended, even by an error. -/
def record (method : Method) (depth : Option Nat) (answer : α → Answer) (scan : Scan ε α) :
    Scan ε α := fun scanner => do
  let (outcome, after) ← scan scanner
  return (outcome, after.note
    ⟨method, depth, scanner.cursor, after.cursor, answerOf answer outcome⟩)

/-- A scan as a call that always has a value if it has no error. -/
def call (method : Method) (scan : Scan ε α) : Scan ε α :=
  record method none (fun _ => .value) scan

theorem bind_eq_of_ok {scan : Scan ε α} {scanner after : Scanner} {value : α}
    (hscan : scan scanner = some (.ok value, after)) (next : α → Scan ε β) :
    (scan >>= next) scanner = next value after := by
  change (scan scanner).bind _ = _
  rw [hscan]
  rfl

theorem bind_eq_of_error {scan : Scan ε α} {scanner after : Scanner} {error : ε}
    (hscan : scan scanner = some (.error error, after)) (next : α → Scan ε β) :
    (scan >>= next) scanner = some (.error error, after) := by
  change (scan scanner).bind _ = _
  rw [hscan]
  rfl

theorem bind_congr {scan other : Scan ε α} {scanner : Scanner}
    (hscan : scan scanner = other scanner) (next : α → Scan ε β) :
    (scan >>= next) scanner = (other >>= next) scanner := by
  change (scan scanner).bind _ = (other scanner).bind _
  rw [hscan]

theorem afterRound_again {left : Scanner → Nat} {before after : Scanner}
    (hleft : left after < left before) (round : σ → Scan ε (Round σ β)) (later : σ) :
    afterRound left round before (.again later) after = loop left round later after :=
  if_pos hleft

/-- A loop is its first round and what follows it. -/
theorem loop_eq (left : Scanner → Nat) (round : σ → Scan ε (Round σ β)) (state : σ)
    (scanner : Scanner) :
    loop left round state scanner =
      (round state >>= afterRound left round scanner) scanner := by
  rw [loop]
  cases hround : round state scanner with
  | none =>
      change none = (round state scanner).bind _
      rw [hround]
      rfl
  | some found =>
      obtain ⟨outcome, after⟩ := found
      cases outcome with
      | error error => rw [bind_eq_of_error hround]
      | ok result =>
          rw [bind_eq_of_ok hround]
          cases result with
          | done result => rfl
          | again later => rfl

theorem get_eq (scanner : Scanner) :
    (get : Scan ε Scanner) scanner = some (.ok scanner, scanner) := rfl

theorem modify_eq (f : Scanner → Scanner) (scanner : Scanner) :
    (modify f : Scan ε Unit) scanner = some (.ok (), f scanner) := rfl

end Combinators

variable (tokens : List Token) (limit : Nat)

/-- The token so many places ahead, which is only looked at. -/
def peek? (ahead : Nat) : Scan Fault (Option Token) :=
  return (← get).cursor.peek? tokens ahead

/-- The token at the cursor plays a role. -/
def nextIs (role : Token.Role) : Scan Fault Bool :=
  return (← peek? tokens 0).any fun token => token.role = role

def advance : Scan Fault Unit :=
  call .advance (modify fun scanner => { scanner with cursor := scanner.cursor.advance })

/-- The token at the cursor, which has to be there. -/
def expectToken : Scan Fault Token := do
  match ← peek? tokens 0 with
  | some token => return token
  | none => throw .missing

/-- The token at the cursor, which has to play a role, and the cursor after it. -/
def consume (role : Token.Role) (expected : Expectation) : Scan Fault Token :=
  call .consume do
    let token ← expectToken tokens
    if token.role = role then
      advance
      return token
    else throw (.unexpected expected token)

/-- What stands between an opening token, which is already taken, and `close`: nothing, or
some items with the closing token after them. -/
def between {α : Type} (close : Token.Role) (nothing : α) (items : Scan Fault α) :
    Scan Fault α := do
  if ← nextIs tokens close then
    advance
    return nothing
  else items

/-- A call at a nesting depth, which is refused as soon as it has come to the limit. -/
def nested {α : Type} (method : Method) (depth : Nat) (scan : depth < limit → Scan Fault α) :
    Scan Fault α :=
  record method (some depth) (fun _ => .value) do
    if hdepth : depth < limit then scan hdepth
    else throw (.tooDeep depth (← peek? tokens 0))

end Scan

end Dataflow
