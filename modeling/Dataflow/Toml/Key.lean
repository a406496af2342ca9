import Dataflow.Toml.Text

/-!
# Keys of TOML

A key is a bare word of letters, digits, underscores and dashes, or a string on
one line.  A dotted key joins keys by dots, with blanks around them.
-/

namespace Dataflow.Toml.Key

/-- A dotted key with this many parts or more is refused. -/
def maxParts : Nat := 80

def isBare (c : Char) : Bool :=
  c.isAlphanum || c == '_' || c == '-'

def readPart (cs : List Char) : Outcome String :=
  match cs with
  | '"' :: rest => Text.readOnto '"' [] rest
  | '\'' :: rest => Text.readOnto '\'' [] rest
  | cs =>
    let word := cs.takeWhile isBare
    if word.isEmpty then refuse else .ok (String.ofList word, cs.dropWhile isBare)

theorem length_lt_of_readPart {cs rest : List Char} {part : String}
    (hread : readPart cs = .ok (part, rest)) : rest.length < cs.length := by
  unfold readPart at hread
  split at hread
  · exact Nat.lt_succ_of_lt (Text.length_lt_of_readOnto hread)
  · exact Nat.lt_succ_of_lt (Text.length_lt_of_readOnto hread)
  · dsimp only at hread
    split at hread
    · contradiction
    · next hword =>
      simp only [Except.ok.injEq, Prod.mk.injEq] at hread
      have hlength := congrArg List.length (List.takeWhile_append_dropWhile (p := isBare) (l := cs))
      have hpos := List.length_pos_iff.mpr (fun hnil => hword (List.isEmpty_iff.mpr hnil))
      simp only [List.length_append, hread.2] at hlength
      omega

/-- The parts of a dotted key, after those already read, which are in reverse
order.  Blanks after the key are read with it. -/
def readOnto (parts : List String) (cs : List Char) : Outcome (List String) :=
  match _hread : readPart (skipBlanks cs) with
  | .error _ => refuse
  | .ok (part, rest) =>
    match _hrest : skipBlanks rest with
    | '.' :: after => readOnto (part :: parts) after
    | after => .ok ((part :: parts).reverse, after)
termination_by cs.length
decreasing_by
  have := length_skipBlanks_le cs
  have := length_lt_of_readPart _hread
  have := length_skipBlanks_le rest
  simp only [_hrest, List.length_cons] at this
  omega

theorem length_lt_of_readOnto {parts result : List String} {cs rest : List Char}
    (hread : readOnto parts cs = .ok (result, rest)) : rest.length < cs.length := by
  fun_induction readOnto parts cs with
  | case1 => simp [refuse] at hread
  | case2 parts cs part after hpart inner hinner ih =>
    have := ih hread
    have := length_skipBlanks_le cs
    have := length_lt_of_readPart hpart
    have := length_skipBlanks_le after
    simp only [hinner, List.length_cons] at this
    omega
  | case3 parts cs part after hpart _ =>
    simp only [Except.ok.injEq, Prod.mk.injEq] at hread
    have := length_skipBlanks_le cs
    have := length_lt_of_readPart hpart
    have := length_skipBlanks_le after
    simp only [hread.2] at this
    omega

/-- A dotted key: the path to a table, and a name in it. -/
def read (cs : List Char) : Outcome (List String × String) :=
  match readOnto [] cs with
  | .error _ => refuse
  | .ok (parts, rest) =>
    match parts.getLast? with
    | some name => if parts.length < maxParts then .ok ((parts.dropLast, name), rest) else refuse
    | none => refuse

theorem length_lt_of_read {cs rest : List Char} {key : List String × String}
    (hread : read cs = .ok (key, rest)) : rest.length < cs.length := by
  unfold read at hread
  split at hread
  · contradiction
  · next hparts =>
    split at hread
    · split at hread
      · simp only [Except.ok.injEq, Prod.mk.injEq] at hread
        exact hread.2 ▸ length_lt_of_readOnto hparts
      · contradiction
    · contradiction

end Dataflow.Toml.Key
