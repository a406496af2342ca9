import Dataflow.Toml.Value

/-!
# TOML documents

A document is a list of lines: entries, headers of tables, and lines that say
nothing.  The text is a document when every line can be read and the lines
together make tables.
-/

namespace Dataflow.Toml

namespace Line

/-- A header after its opening brackets, up to its closing ones. -/
def readHeader (closing : List Char) (make : List String → String → Line) (cs : List Char) :
    Outcome Line :=
  match Key.read cs with
  | .error _ => refuse
  | .ok ((path, name), rest) =>
    if closing.isPrefixOf rest then .ok (make path name, rest.drop closing.length) else refuse

/-- The line that starts here and says something, without what may follow it on
the line. -/
def read (cs : List Char) : Outcome Line :=
  match cs with
  | '[' :: '[' :: rest => readHeader [']', ']'] .element rest
  | '[' :: rest => readHeader [']'] .header rest
  | cs =>
    match Item.readPair (Item.reader Item.maxNesting) cs with
    | .error _ => refuse
    | .ok ((path, name, item), rest) => .ok (.entry path name item, rest)

theorem length_le_of_readHeader {closing : List Char}
    {make : List String → String → Line} {cs rest : List Char} {line : Line}
    (hread : readHeader closing make cs = .ok (line, rest)) : rest.length ≤ cs.length := by
  unfold readHeader at hread
  split at hread
  · contradiction
  · next hkey =>
    split at hread
    · simp only [Except.ok.injEq, Prod.mk.injEq] at hread
      have := Key.length_lt_of_read hkey
      simp only [← hread.2, List.length_drop]
      omega
    · contradiction

theorem length_lt_of_read {cs rest : List Char} {line : Line}
    (hread : read cs = .ok (line, rest)) : rest.length < cs.length := by
  unfold read at hread
  split at hread
  · have := length_le_of_readHeader hread
    simp only [List.length_cons]
    omega
  · have := length_le_of_readHeader hread
    simp only [List.length_cons]
    omega
  · split at hread
    · contradiction
    · next hpair =>
      simp only [Except.ok.injEq, Prod.mk.injEq] at hread
      exact hread.2 ▸ Item.length_lt_of_readPair hpair

/-- The lines of a text after those already read, which are in reverse order. -/
def readAllOnto (lines : List Line) (cs : List Char) : Except Unit (List Line) :=
  match cs with
  | [] => .ok lines.reverse
  | c :: rest =>
    match _hskip : skipLine (c :: rest) with
    | .ok after => readAllOnto lines after
    | .error _ =>
      match _hread : read (skipBlanks (c :: rest)) with
      | .error _ => refuse
      | .ok (line, ending) =>
        match _hline : skipLine ending with
        | .error _ => refuse
        | .ok after => readAllOnto (line :: lines) after
termination_by cs.length
decreasing_by
  · rcases length_lt_of_skipLine _hskip with rfl | hlt
    · simp
    · exact hlt
  · have := length_skipBlanks_le (c :: rest)
    have := length_lt_of_read _hread
    rcases length_lt_of_skipLine _hline with rfl | hlt
    · simp
    · omega

end Line

/-- The entries of the document that a text is, if it is one.  A byte order mark
before it is left out. -/
def parse? (text : String) : Option Entries :=
  let cs :=
    match text.toList with
    | '\ufeff' :: rest => rest
    | cs => cs
  match Line.readAllOnto [] cs with
  | .error _ => none
  | .ok lines => Entries.ofLines lines

end Dataflow.Toml
