import Dataflow.Token.Basic

/-!
# Words

A source text is cut at separators: the blank and the five control characters
from tab to carriage return.  No other blank of Unicode separates.  A word is a
maximal run of characters between separators, and each word is one token.
-/

namespace Dataflow

/-- Blank, tab, line feed, vertical tab, form feed and carriage return. -/
def isSeparator (c : Char) : Bool :=
  c == ' ' || ('\t' ≤ c && c ≤ '\r')

/-- The first word of a text and what follows it, if the text holds a word. -/
def nextWord? (cs : List Char) : Option (List Char × List Char) :=
  match cs.dropWhile isSeparator with
  | [] => none
  | c :: rest =>
    some (c :: rest.takeWhile (fun d => !isSeparator d),
      rest.dropWhile (fun d => !isSeparator d))

theorem length_lt_of_nextWord? {cs word rest : List Char}
    (hnext : nextWord? cs = some (word, rest)) : rest.length < cs.length := by
  unfold nextWord? at hnext
  split at hnext
  · contradiction
  · next c tail hdrop =>
    obtain ⟨-, rfl⟩ := Prod.mk.inj (Option.some.inj hnext)
    have hdropped : (c :: tail).length ≤ cs.length :=
      hdrop ▸ (List.dropWhile_suffix isSeparator).length_le
    have hrest := (List.dropWhile_suffix (fun d => !isSeparator d) (l := tail)).length_le
    simp only [List.length_cons] at hdropped
    omega

/-- The words of a text after those already found, which are in reverse order. -/
def wordsOnto (found : List (List Char)) (cs : List Char) : List (List Char) :=
  match _hnext : nextWord? cs with
  | none => found.reverse
  | some (word, rest) => wordsOnto (word :: found) rest
termination_by cs.length
decreasing_by exact length_lt_of_nextWord? _hnext

/-- The words of a text in order. -/
def words (cs : List Char) : List (List Char) :=
  wordsOnto [] cs

/-- The token that a word is. -/
def Token.ofWord (word : List Char) : Token :=
  Token.ofText (String.ofList word)

/-- The tokens of a source, without any limit. -/
def tokenize (source : String) : List Token :=
  (words source.toList).map Token.ofWord

end Dataflow
