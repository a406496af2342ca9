import Dataflow.Proofs.Blame.Statement

/-!
# Levels

The readers are given the room that is left and count it down.  Here the same
parts are read with a level that is counted up: each reader hands the next level
to the readers that it calls, and refuses its tokens, naming its own level, as
soon as that level has come to the limit.  Both ways of counting read the same.
-/

namespace Dataflow

/-! ## Counting upwards -/

/-- The reader for patterns whose arguments are read by `arg`. -/
def Pattern.readerWith (arg : TokenReader Pattern) : TokenReader Pattern where
  read := readWith arg
  shrinks := length_lt_of_readWith

/-- The reader for patterns at a level. -/
def Pattern.readerAt (limit level : Nat) : TokenReader Pattern :=
  if _h : level < limit then readerWith (readerAt limit (level + 1))
  else TokenReader.tooDeep level
termination_by limit - level

namespace Expr

/-- The reader for flows whose maps are read by `map`. -/
def flowReaderWith (map : TokenReader (List (Pattern × Expr))) (ends : Token → Bool) :
    TokenReader Expr where
  read := readStepsOnto map ends []
  shrinks := length_lt_of_readStepsOnto

/-- The reader for maps whose keys are read by `key` and whose values by `value`. -/
def mapReaderWith (key : TokenReader Pattern) (value : TokenReader Expr) :
    TokenReader (List (Pattern × Expr)) where
  read := readMapWith key value
  shrinks := length_lt_of_readMapWith

mutual

/-- The reader at a level for flows that end where `ends` says. -/
def flowReaderAt (limit : Nat) (ends : Token → Bool) (level : Nat) : TokenReader Expr :=
  if _h : level < limit then flowReaderWith (mapReaderAt limit (level + 1)) ends
  else TokenReader.tooDeep level
termination_by limit - level

/-- The reader for maps at a level. -/
def mapReaderAt (limit level : Nat) : TokenReader (List (Pattern × Expr)) :=
  if _h : level < limit then
    mapReaderWith (Pattern.readerAt limit (level + 1))
      (flowReaderAt limit Token.endsEntry (level + 1))
  else TokenReader.tooDeep level
termination_by limit - level

end

end Expr

/-- An assignment whose value is read by `value`. -/
def Assignment.readWith (value : TokenReader Expr) (tokens : List Token) :
    Except Fault Assignment := do
  let (name, rest) ← expectRole .identifier .assignedName tokens
  let (signature, rest) ← readSignature rest
  let (_, rest) ← expectRole .equals .assignment rest
  if rest.isEmpty then
    .error .missing
  else
    let (value, _) ← value.read rest
    return { name := name.text, signature, value }

def Assignment.readAt (limit level : Nat) (tokens : List Token) : Except Fault Assignment :=
  if level < limit then
    readWith (Expr.flowReaderAt limit (fun _ => false) (level + 1)) tokens
  else .error (.tooDeep level tokens.head?)

namespace Statement

def readImportAt (limit level : Nat) (keyword : Token) (tokens : List Token) :
    Except Fault Statement :=
  if level < limit then
    if tokens.length ≠ 3 ∧ tokens.length ≠ 5 then
      .error (.importLength keyword (tokens.length + 1))
    else readImportBody tokens
  else .error (.tooDeep level (some keyword))

def readExportAt (limit level : Nat) (keyword : Token) (tokens : List Token) :
    Except Fault Statement :=
  if level < limit then
    if tokens.isEmpty then .error .missing
    else return .exportFlow (← Assignment.readAt limit (level + 1) tokens)
  else .error (.tooDeep level (some keyword))

def readAt (limit level : Nat) (tokens : List Token) : Except Fault Statement :=
  if level < limit then
    match tokens with
    | [] => .ok .empty
    | first :: rest =>
      match first.role with
      | .importWord => readImportAt limit (level + 1) first rest
      | .exportWord => readExportAt limit (level + 1) first rest
      | .identifier => return .assign (← Assignment.readAt limit (level + 1) (first :: rest))
      | _ => .error (.unexpected .assignedName first)
  else .error (.tooDeep level tokens.head?)

end Statement

/-! ## Both ways of counting -/

theorem Pattern.readerAt_eq_reader (level room : Nat) :
    readerAt (level + room) level = reader (level + room) room := by
  induction room generalizing level with
  | zero =>
      rw [readerAt, dif_neg (by omega)]
      rfl
  | succ room ih =>
      have hnext : level + (room + 1) = level + 1 + room := by omega
      rw [readerAt, dif_pos (by omega), hnext, ih (level + 1)]
      rfl

theorem Expr.readersAt_eq_readers (level room : Nat) :
    (∀ ends, flowReaderAt (level + room) ends level = flowReader (level + room) ends room) ∧
      mapReaderAt (level + room) level = mapReader (level + room) room := by
  induction room generalizing level with
  | zero =>
      constructor
      · intro ends
        rw [flowReaderAt, dif_neg (by omega)]
        rfl
      · rw [mapReaderAt, dif_neg (by omega)]
        rfl
  | succ room ih =>
      obtain ⟨hflow, hmap⟩ := ih (level + 1)
      have hnext : level + (room + 1) = level + 1 + room := by omega
      constructor
      · intro ends
        rw [flowReaderAt, dif_pos (by omega), hnext, hmap]
        rfl
      · rw [mapReaderAt, dif_pos (by omega), hnext, hflow, Pattern.readerAt_eq_reader]
        rfl

theorem Assignment.readAt_eq_read (level room : Nat) (tokens : List Token) :
    readAt (level + room) level tokens = read (level + room) room tokens := by
  cases room with
  | zero => exact if_neg (Nat.lt_irrefl level)
  | succ room =>
      have hnext : level + (room + 1) = level + 1 + room := by omega
      rw [readAt, if_pos (by omega), hnext, (Expr.readersAt_eq_readers (level + 1) room).1]
      rfl

namespace Statement

theorem readImportAt_eq_readImport (level room : Nat) (keyword : Token) (tokens : List Token) :
    readImportAt (level + room) level keyword tokens =
      readImport (level + room) room keyword tokens := by
  cases room with
  | zero => exact if_neg (Nat.lt_irrefl level)
  | succ room =>
      rw [readImportAt, if_pos (by omega)]
      rfl

theorem readExportAt_eq_readExport (level room : Nat) (keyword : Token) (tokens : List Token) :
    readExportAt (level + room) level keyword tokens =
      readExport (level + room) room keyword tokens := by
  cases room with
  | zero => exact if_neg (Nat.lt_irrefl level)
  | succ room =>
      have hnext : level + (room + 1) = level + 1 + room := by omega
      rw [readExportAt, if_pos (by omega), hnext, Assignment.readAt_eq_read, readExport]

/-- Counting up from level zero reads what counting down from the limit reads. -/
theorem readAt_zero (limit : Nat) (tokens : List Token) :
    readAt limit 0 tokens = read limit tokens := by
  cases limit with
  | zero => rfl
  | succ room =>
      have hlimit : room + 1 = 0 + 1 + room := by omega
      cases tokens with
      | nil => rfl
      | cons first rest =>
          have himport := readImportAt_eq_readImport (0 + 1) room first rest
          have hexport := readExportAt_eq_readExport (0 + 1) room first rest
          have hassign := Assignment.readAt_eq_read (0 + 1) room (first :: rest)
          rw [← hlimit] at himport hexport hassign
          simp only [readAt, himport, hexport, hassign, Nat.succ_pos, if_true]
          rfl

end Statement

end Dataflow
