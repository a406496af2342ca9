import Dataflow.Syntax.Basic

/-!
# Blanks, line ends and comments of TOML

Blanks are spaces and tabs.  A line ends with a line feed, which a carriage
return may precede, or with the document.  A comment goes on to the end of its
line and holds no control characters but tabs.
-/

namespace Dataflow.Toml

/-- The outcome of reading characters.  A refusal says no more than that the
text is not a document. -/
abbrev Outcome (α : Type) := Except Unit (α × List Char)

abbrev CharReader (α : Type) := Reader Char Unit α

def refuse {α : Type} : Except Unit α := .error ()

def isBlank (c : Char) : Bool :=
  c == ' ' || c == '\t'

/-- Characters that stand for themselves in comments and strings. -/
def isPlain (c : Char) : Bool :=
  c == '\t' || (0x20 ≤ c.toNat && c.toNat != 0x7F)

def skipBlanks (cs : List Char) : List Char :=
  cs.dropWhile isBlank

/-- What follows a line end in the text, if one stands here. -/
def afterNewline? : List Char → Option (List Char)
  | '\n' :: rest => some rest
  | '\r' :: '\n' :: rest => some rest
  | _ => none

/-- What follows a line end or the end of the document, if one stands here. -/
def afterLine? : List Char → Option (List Char)
  | [] => some []
  | c :: rest => afterNewline? (c :: rest)

/-- What follows the line, of which nothing but blanks and a comment is left. -/
def skipLine (cs : List Char) : Except Unit (List Char) :=
  let line :=
    match skipBlanks cs with
    | '#' :: comment => comment.dropWhile isPlain
    | line => line
  match afterLine? line with
  | some rest => .ok rest
  | none => refuse

/-- What follows any blanks and line ends. -/
def skipSpace : List Char → List Char
  | [] => []
  | '\n' :: rest => skipSpace rest
  | '\r' :: '\n' :: rest => skipSpace rest
  | c :: rest => if isBlank c then skipSpace rest else c :: rest

/-- What follows any blanks, comments and line ends between the elements of an
array, when the text starts inside a comment or not. -/
def skipFiller (inComment : Bool) : List Char → Except Unit (List Char)
  | [] => .ok []
  | '\n' :: rest => skipFiller false rest
  | '\r' :: '\n' :: rest => skipFiller false rest
  | c :: rest =>
    if inComment then
      if isPlain c then skipFiller true rest else refuse
    else if isBlank c then skipFiller false rest
    else if c = '#' then skipFiller true rest
    else .ok (c :: rest)

theorem length_skipBlanks_le (cs : List Char) : (skipBlanks cs).length ≤ cs.length :=
  (List.dropWhile_suffix isBlank).length_le

theorem length_lt_of_afterNewline? {cs rest : List Char}
    (hafter : afterNewline? cs = some rest) : rest.length < cs.length := by
  unfold afterNewline? at hafter
  split at hafter
  · cases hafter
    simp
  · cases hafter
    simp only [List.length_cons]
    omega
  · contradiction

theorem length_lt_of_afterLine? {cs rest : List Char} (hafter : afterLine? cs = some rest) :
    rest = [] ∨ rest.length < cs.length := by
  unfold afterLine? at hafter
  split at hafter
  · simp_all
  · exact Or.inr (length_lt_of_afterNewline? hafter)

/-- Only at the end of the document is there nothing to skip. -/
theorem length_lt_of_skipLine {cs rest : List Char} (hskip : skipLine cs = .ok rest) :
    rest = [] ∨ rest.length < cs.length := by
  have hblanks := length_skipBlanks_le cs
  unfold skipLine at hskip
  dsimp only at hskip
  split at hskip
  · next hafter =>
    cases hskip
    have hline := length_lt_of_afterLine? hafter
    split at hline
    · next comment hcomment =>
      have := (List.dropWhile_suffix isPlain (l := comment)).length_le
      simp only [hcomment, List.length_cons] at hblanks
      exact hline.imp_right fun hlt => by omega
    · exact hline.imp_right fun hlt => by omega
  · contradiction

theorem length_skipSpace_le (cs : List Char) : (skipSpace cs).length ≤ cs.length := by
  fun_induction skipSpace cs <;> simp_all <;> omega

theorem length_le_of_skipFiller {inComment : Bool} {cs rest : List Char}
    (hskip : skipFiller inComment cs = .ok rest) : rest.length ≤ cs.length := by
  fun_induction skipFiller inComment cs <;> simp_all [refuse] <;> omega

end Dataflow.Toml
