import Dataflow.Toml.Blank
import Dataflow.Toml.Number

/-!
# Strings of TOML

A basic string stands between quotation marks and knows escapes; a literal
string stands between apostrophes and knows none.  Either may also stand between
three of its marks, and then holds line ends.  The first line end after three
marks is left out, and one or two marks may stand right before the closing three.
-/

namespace Dataflow.Toml.Text

/-- The character whose code point is written with `count` hexadecimal digits. -/
def codePoint? (count : Nat) (cs : List Char) : Option (Char × List Char) := do
  let digits ← (cs.take count).mapM (digit? 16)
  let code := ofDigits 16 digits
  if digits.length = count ∧ code.isValidChar then
    return (Char.ofNat code, cs.drop count)
  else
    none

/-- The character that stands after a backslash. -/
def escape? : List Char → Option (Char × List Char)
  | 'b' :: rest => some ('\x08', rest)
  | 't' :: rest => some ('\t', rest)
  | 'n' :: rest => some ('\n', rest)
  | 'f' :: rest => some ('\x0c', rest)
  | 'r' :: rest => some ('\r', rest)
  | '"' :: rest => some ('"', rest)
  | '\\' :: rest => some ('\\', rest)
  | 'u' :: rest => codePoint? 4 rest
  | 'U' :: rest => codePoint? 8 rest
  | _ => none

/-- What follows a backslash at the end of a line: it takes all blanks and line
ends with it. -/
def afterFold? (cs : List Char) : Option (List Char) :=
  (afterNewline? (skipBlanks cs)).map skipSpace

theorem length_le_of_codePoint? {count : Nat} {cs rest : List Char} {c : Char}
    (hcode : codePoint? count cs = some (c, rest)) : rest.length ≤ cs.length := by
  simp only [codePoint?, Option.bind_eq_bind, Option.bind_eq_some_iff] at hcode
  obtain ⟨digits, -, hcode⟩ := hcode
  split at hcode
  · cases hcode
    simp
  · contradiction

theorem length_le_of_escape? {cs rest : List Char} {c : Char}
    (hescape : escape? cs = some (c, rest)) : rest.length ≤ cs.length := by
  unfold escape? at hescape
  split at hescape
  case h_8 | h_9 =>
    have := length_le_of_codePoint? hescape
    simp only [List.length_cons]
    omega
  case h_10 => contradiction
  all_goals
    cases hescape
    simp

theorem length_le_of_afterFold? {cs rest : List Char} (hfold : afterFold? cs = some rest) :
    rest.length ≤ cs.length := by
  simp only [afterFold?, Option.map_eq_some_iff] at hfold
  obtain ⟨line, hline, rfl⟩ := hfold
  have := length_lt_of_afterNewline? hline
  have := length_skipBlanks_le cs
  have := length_skipSpace_le line
  omega

/-- A string up to its closing mark, after the characters already read, which
are in reverse order.  Only a basic string knows escapes. -/
def readOnto (mark : Char) (text cs : List Char) : Outcome String :=
  match cs with
  | [] => refuse
  | c :: rest =>
    if c = mark then .ok (String.ofList text.reverse, rest)
    else if c = '\\' ∧ mark = '"' then
      match _hescape : escape? rest with
      | some (escaped, after) => readOnto mark (escaped :: text) after
      | none => refuse
    else if isPlain c then readOnto mark (c :: text) rest
    else refuse
termination_by cs.length
decreasing_by
  · have := length_le_of_escape? _hescape
    simp only [List.length_cons]
    omega
  · simp

/-- A string whose closing three marks have been read.  Up to two marks right
after them belong to the string. -/
def closeLong (mark : Char) (text : List Char) (rest : List Char) : String × List Char :=
  let marks := (rest.take 2).takeWhile (· == mark)
  (String.ofList (text.reverse ++ marks), rest.drop marks.length)

/-- A string up to its closing three marks, after the characters already read,
which are in reverse order. -/
def readLongOnto (mark : Char) (text cs : List Char) : Outcome String :=
  match cs with
  | [] => refuse
  | c :: rest =>
    if c = mark then
      match rest with
      | second :: third :: after =>
        if second = mark ∧ third = mark then .ok (closeLong mark text after)
        else readLongOnto mark (c :: text) (second :: third :: after)
      | rest => readLongOnto mark (c :: text) rest
    else if c = '\\' ∧ mark = '"' then
      match _hfold : afterFold? rest with
      | some after => readLongOnto mark text after
      | none =>
        match _hescape : escape? rest with
        | some (escaped, after) => readLongOnto mark (escaped :: text) after
        | none => refuse
    else if isPlain c then readLongOnto mark (c :: text) rest
    else
      match _hnewline : afterNewline? (c :: rest) with
      | some after => readLongOnto mark ('\n' :: text) after
      | none => refuse
termination_by cs.length
decreasing_by
  all_goals simp only [List.length_cons]
  · omega
  · omega
  · have := length_le_of_afterFold? _hfold
    omega
  · have := length_le_of_escape? _hescape
    omega
  · omega
  · exact length_lt_of_afterNewline? _hnewline

theorem length_lt_of_readOnto {mark : Char} {text cs rest : List Char} {result : String}
    (hread : readOnto mark text cs = .ok (result, rest)) : rest.length < cs.length := by
  fun_induction readOnto mark text cs with
  | case1 | case4 | case6 => simp [refuse] at hread
  | case2 => simp_all
  | case3 text c rest _ _ escaped after hescape ih =>
    have := ih hread
    have := length_le_of_escape? hescape
    simp only [List.length_cons]
    omega
  | case5 text c rest _ _ _ ih =>
    have := ih hread
    simp only [List.length_cons]
    omega

theorem length_lt_of_readLongOnto {mark : Char} {text cs rest : List Char} {result : String}
    (hread : readLongOnto mark text cs = .ok (result, rest)) : rest.length < cs.length := by
  fun_induction readLongOnto mark text cs with
  | case1 | case7 | case10 => simp [refuse] at hread
  | case2 text second third after _ =>
    simp only [closeLong, Except.ok.injEq, Prod.mk.injEq] at hread
    simp only [← hread.2, List.length_cons, List.length_drop]
    omega
  | case3 text second third after _ ih => simpa using Nat.lt_succ_of_lt (ih hread)
  | case4 text rest _ ih => exact Nat.lt_succ_of_lt (ih hread)
  | case5 text c rest _ _ after hfold ih =>
    have := ih hread
    have := length_le_of_afterFold? hfold
    simp only [List.length_cons]
    omega
  | case6 text c rest _ _ _ escaped after hescape ih =>
    have := ih hread
    have := length_le_of_escape? hescape
    simp only [List.length_cons]
    omega
  | case8 text c rest _ _ _ ih => exact Nat.lt_succ_of_lt (ih hread)
  | case9 text c rest _ _ _ after hnewline ih =>
    exact Nat.lt_trans (ih hread) (length_lt_of_afterNewline? hnewline)

/-- The string that starts here: with three marks, without the first line end,
or with one. -/
def read (mark : Char) (cs : List Char) : Outcome String :=
  match cs with
  | first :: second :: third :: rest =>
    if first = mark ∧ second = mark ∧ third = mark then
      readLongOnto mark [] ((afterNewline? rest).getD rest)
    else if first = mark then readOnto mark [] (second :: third :: rest)
    else refuse
  | first :: rest => if first = mark then readOnto mark [] rest else refuse
  | [] => refuse

theorem length_lt_of_read {mark : Char} {cs rest : List Char} {result : String}
    (hread : read mark cs = .ok (result, rest)) : rest.length < cs.length := by
  unfold read at hread
  split at hread
  · next first second third after =>
    split at hread
    · have := length_lt_of_readLongOnto hread
      cases hnewline : afterNewline? after with
      | none =>
        simp only [hnewline, Option.getD_none] at this
        simp only [List.length_cons]
        omega
      | some line =>
        have := length_lt_of_afterNewline? hnewline
        simp_all only [Option.getD_some, List.length_cons]
        omega
    · split at hread
      · exact Nat.lt_succ_of_lt (length_lt_of_readOnto hread)
      · contradiction
  · split at hread
    · exact Nat.lt_succ_of_lt (length_lt_of_readOnto hread)
    · contradiction
  · contradiction

end Dataflow.Toml.Text
