import Dataflow.Toml.Key
import Dataflow.Toml.Moment
import Dataflow.Toml.Number
import Dataflow.Toml.Table

/-!
# Values of TOML

A value is a string, a word, an array or a table between braces.  Arrays may run
over several lines and end with a comma; a table between braces stands on one
line and does not.
-/

namespace Dataflow.Toml.Item

/-- How deep arrays and tables may stand in each other. -/
def maxNesting : Nat := 79

/-- Whether a character ends the word before it. -/
def endsWord (c : Char) : Bool :=
  isBlank c || c == '\n' || c == '\r' || c == ',' || c == ']' || c == '\x7d' || c == '#'

def splitWord (cs : List Char) : List Char × List Char :=
  (cs.takeWhile fun c => !endsWord c, cs.dropWhile fun c => !endsWord c)

/-- What a word is, if it is a value. -/
def ofWord? (word : List Char) : Option Scalar :=
  match Number.integer? word with
  | some value => some (.integer value)
  | none =>
    if word = ['t', 'r', 'u', 'e'] then some (.boolean true)
    else if word = ['f', 'a', 'l', 's', 'e'] then some (.boolean false)
    else if Number.isFloat word then some (.float (String.ofList word))
    else if Moment.isMoment word then some (.moment (String.ofList word))
    else none

/-- A word that is a value.  A date may be followed by a blank and a time. -/
def readWord (cs : List Char) : Outcome Item :=
  match splitWord cs with
  | ([], _) => refuse
  | (word, rest) =>
    match ofWord? word, rest with
    | none, _ => refuse
    | some value, ' ' :: after =>
      let (time, afterTime) := splitWord after
      if Moment.isDate word && Moment.isTimeWithOffset time then
        .ok (.scalar (.moment (String.ofList (word ++ ' ' :: time))), afterTime)
      else
        .ok (.scalar value, rest)
    | some value, rest => .ok (.scalar value, rest)

/-- Items up to the closing bracket, after those already read, which are in
reverse order. -/
def readItemsOnto (item : CharReader Item) (items : List Item) (cs : List Char) : Outcome Item :=
  match _hfiller : skipFiller false cs with
  | .error _ => refuse
  | .ok (']' :: rest) => .ok (.array items.reverse, rest)
  | .ok start =>
    match _hitem : item.read start with
    | .error _ => refuse
    | .ok (value, afterItem) =>
      match _hafter : skipFiller false afterItem with
      | .ok (']' :: rest) => .ok (.array (value :: items).reverse, rest)
      | .ok (',' :: rest) => readItemsOnto item (value :: items) rest
      | _ => refuse
termination_by cs.length
decreasing_by
  have := length_le_of_skipFiller _hfiller
  have := item.shrinks _hitem
  have := length_le_of_skipFiller _hafter
  simp only [List.length_cons] at this
  omega

/-- An entry between braces: a dotted key, an equals sign and a value. -/
def readPair (item : CharReader Item) (cs : List Char) :
    Outcome (List String × String × Item) :=
  match Key.read cs with
  | .ok ((path, name), '=' :: rest) =>
    match item.read (skipBlanks rest) with
    | .ok (value, rest) => .ok ((path, name, value), skipBlanks rest)
    | .error _ => refuse
  | _ => refuse

theorem length_lt_of_readPair {item : CharReader Item} {cs rest : List Char}
    {pair : List String × String × Item} (hread : readPair item cs = .ok (pair, rest)) :
    rest.length < cs.length := by
  unfold readPair at hread
  split at hread
  · next path name after hkey =>
    split at hread
    · next value afterValue hvalue =>
      simp only [Except.ok.injEq, Prod.mk.injEq] at hread
      have := Key.length_lt_of_read hkey
      have := item.shrinks hvalue
      have := length_skipBlanks_le after
      have := length_skipBlanks_le afterValue
      simp only [List.length_cons] at *
      rw [← hread.2]
      omega
    · contradiction
  · contradiction

/-- Entries up to the closing brace, at least one, after those already read,
which are in reverse order. -/
def readPairsOnto (item : CharReader Item) (pairs : List (List String × String × Item))
    (cs : List Char) : Outcome (List (List String × String × Item)) :=
  match _hpair : readPair item cs with
  | .ok (pair, ',' :: rest) => readPairsOnto item (pair :: pairs) rest
  | .ok (pair, '\x7d' :: rest) => .ok ((pair :: pairs).reverse, rest)
  | _ => refuse
termination_by cs.length
decreasing_by
  have := length_lt_of_readPair _hpair
  simp only [List.length_cons] at this
  omega

/-- A table after its opening brace. -/
def readTable (item : CharReader Item) (cs : List Char) : Outcome Item :=
  match skipBlanks cs with
  | '\x7d' :: rest => .ok (.inlineTable [], rest)
  | start =>
    match readPairsOnto item [] start with
    | .error _ => refuse
    | .ok (pairs, rest) =>
      match Entries.ofPairs pairs with
      | some entries => .ok (.inlineTable entries, rest)
      | none => refuse

/-- A string as an item. -/
def readString (mark : Char) (cs : List Char) : Outcome Item :=
  match Text.read mark cs with
  | .error _ => refuse
  | .ok (text, rest) => .ok (.scalar (.string text), rest)

/-- A value in which the items of arrays and tables are read by `item?`, if it
may hold any. -/
def readWith (item? : Option (CharReader Item)) (cs : List Char) : Outcome Item :=
  match cs, item? with
  | '"' :: _, _ => readString '"' cs
  | '\'' :: _, _ => readString '\'' cs
  | '[' :: rest, some item => readItemsOnto item [] rest
  | '\x7b' :: rest, some item => readTable item rest
  | _, _ => readWord cs

theorem length_splitWord (cs : List Char) :
    (splitWord cs).1.length + (splitWord cs).2.length = cs.length := by
  rw [← List.length_append, splitWord, List.takeWhile_append_dropWhile]

theorem length_lt_of_readWord {cs rest : List Char} {item : Item}
    (hread : readWord cs = .ok (item, rest)) : rest.length < cs.length := by
  have hsplit := length_splitWord cs
  unfold readWord at hread
  split at hread
  · contradiction
  · next word after hne hword =>
    have hpos := List.length_pos_iff.mpr fun hnil => hne hnil
    rw [hword] at hsplit
    dsimp only at hsplit
    split at hread
    · contradiction
    · next inner _ =>
      have := length_splitWord inner
      dsimp only at hread
      split at hread <;> simp only [Except.ok.injEq, Prod.mk.injEq] at hread <;>
        rw [← hread.2] <;> simp only [List.length_cons] at * <;> omega
    · simp only [Except.ok.injEq, Prod.mk.injEq] at hread
      rw [← hread.2]
      omega

theorem length_lt_of_readItemsOnto {item : CharReader Item} {items : List Item}
    {cs rest : List Char} {result : Item}
    (hread : readItemsOnto item items cs = .ok (result, rest)) : rest.length < cs.length := by
  fun_induction readItemsOnto item items cs with
  | case1 | case3 | case6 => simp [refuse] at hread
  | case2 items cs after hfiller =>
    simp only [Except.ok.injEq, Prod.mk.injEq] at hread
    have := length_le_of_skipFiller hfiller
    simp only [hread.2, List.length_cons] at this
    omega
  | case4 items cs start _ hfiller value afterItem hitem after hafter =>
    simp only [Except.ok.injEq, Prod.mk.injEq] at hread
    have := length_le_of_skipFiller hfiller
    have := item.shrinks hitem
    have := length_le_of_skipFiller hafter
    simp only [hread.2, List.length_cons] at this
    omega
  | case5 items cs start _ hfiller value afterItem hitem after hafter ih =>
    have := ih hread
    have := length_le_of_skipFiller hfiller
    have := item.shrinks hitem
    have := length_le_of_skipFiller hafter
    simp only [List.length_cons] at this
    omega

theorem length_lt_of_readPairsOnto {item : CharReader Item}
    {pairs result : List (List String × String × Item)} {cs rest : List Char}
    (hread : readPairsOnto item pairs cs = .ok (result, rest)) : rest.length < cs.length := by
  fun_induction readPairsOnto item pairs cs with
  | case1 pairs cs pair after hpair ih =>
    have := ih hread
    have := length_lt_of_readPair hpair
    simp only [List.length_cons] at this
    omega
  | case2 pairs cs pair after hpair =>
    simp only [Except.ok.injEq, Prod.mk.injEq] at hread
    have := length_lt_of_readPair hpair
    simp only [hread.2, List.length_cons] at this
    omega
  | case3 => simp [refuse] at hread

theorem length_le_of_readTable {item : CharReader Item} {cs rest : List Char} {result : Item}
    (hread : readTable item cs = .ok (result, rest)) : rest.length ≤ cs.length := by
  have hblanks := length_skipBlanks_le cs
  unfold readTable at hread
  split at hread
  · next hbrace =>
    simp only [Except.ok.injEq, Prod.mk.injEq] at hread
    simp only [hbrace, hread.2, List.length_cons] at hblanks
    omega
  · split at hread
    · contradiction
    · next hpairs =>
      have := length_lt_of_readPairsOnto hpairs
      split at hread
      · simp only [Except.ok.injEq, Prod.mk.injEq] at hread
        rw [← hread.2]
        omega
      · contradiction

theorem length_lt_of_readString {mark : Char} {cs rest : List Char} {result : Item}
    (hread : readString mark cs = .ok (result, rest)) : rest.length < cs.length := by
  unfold readString at hread
  split at hread
  · contradiction
  · next htext =>
    simp only [Except.ok.injEq, Prod.mk.injEq] at hread
    exact hread.2 ▸ Text.length_lt_of_read htext

theorem length_lt_of_readWith {item? : Option (CharReader Item)} {cs rest : List Char}
    {result : Item} (hread : readWith item? cs = .ok (result, rest)) :
    rest.length < cs.length := by
  unfold readWith at hread
  split at hread
  · exact length_lt_of_readString hread
  · exact length_lt_of_readString hread
  · exact Nat.lt_succ_of_lt (length_lt_of_readItemsOnto hread)
  · exact Nat.lt_succ_of_le (length_le_of_readTable hread)
  · exact length_lt_of_readWord hread

/-- The reader for values in which arrays and tables nest at most `room` levels
deep. -/
def reader : Nat → CharReader Item
  | 0 => { read := readWith none, shrinks := length_lt_of_readWith }
  | room + 1 =>
    { read := fun cs => readWith (some (reader room)) cs
      shrinks := length_lt_of_readWith }

end Dataflow.Toml.Item
