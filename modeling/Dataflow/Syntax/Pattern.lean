import Dataflow.Syntax.Basic

/-!
# Reading patterns

A pattern is a literal, a name, or a name with a list of patterns in
parentheses.  The token after a bare name is only looked at.  Arguments nest one
level deeper than the pattern they belong to.
-/

namespace Dataflow.Pattern

/-- Arguments up to the closing parenthesis, at least one, after those already
read, which are in reverse order. -/
def readArgsOnto (arg : TokenReader Pattern) (args : List Pattern) (tokens : List Token) :
    Except Fault (List Pattern × List Token) :=
  match _hread : arg.read tokens with
  | .error fault => .error fault
  | .ok (_, []) => .error .missing
  | .ok (pattern, separator :: rest) =>
    match separator.role with
    | .comma => readArgsOnto arg (pattern :: args) rest
    | .closeParen => .ok ((pattern :: args).reverse, rest)
    | _ => .error (.unexpected .patternSeparator separator)
termination_by tokens.length
decreasing_by
  have hshrinks := arg.shrinks _hread
  simp only [List.length_cons] at hshrinks
  omega

/-- The arguments of a constructor after its opening parenthesis. -/
def readArgs (arg : TokenReader Pattern) (tokens : List Token) :
    Except Fault (List Pattern × List Token) :=
  match tokens with
  | [] => readArgsOnto arg [] []
  | token :: rest =>
    if token.role = .closeParen then .ok ([], rest) else readArgsOnto arg [] (token :: rest)

/-- A pattern whose arguments are read by `arg`. -/
def readWith (arg : TokenReader Pattern) (tokens : List Token) :
    Except Fault (Pattern × List Token) :=
  match tokens with
  | [] => .error .missing
  | token :: rest =>
    match token.role with
    | .literal => .ok (.atom (.literal token.text), rest)
    | .identifier =>
      match rest with
      | [] => .ok (.atom (.identifier token.text), [])
      | next :: inner =>
        if next.role = .openParen then
          match readArgs arg inner with
          | .error fault => .error fault
          | .ok (args, after) => .ok (.constructor token.text args, after)
        else .ok (.atom (.identifier token.text), next :: inner)
    | _ => .error (.unexpected .patternStart token)

theorem length_lt_of_readArgsOnto {arg : TokenReader Pattern} {args result : List Pattern}
    {tokens rest : List Token} (hread : readArgsOnto arg args tokens = .ok (result, rest)) :
    rest.length < tokens.length := by
  fun_induction readArgsOnto arg args tokens with
  | case1 | case2 | case5 => simp at hread
  | case3 args tokens pattern separator inner harg hrole ih =>
    have := ih hread
    have := arg.shrinks harg
    simp only [List.length_cons] at this
    omega
  | case4 args tokens pattern separator inner harg hrole =>
    simp only [Except.ok.injEq, Prod.mk.injEq] at hread
    obtain ⟨-, rfl⟩ := hread
    have := arg.shrinks harg
    simp only [List.length_cons] at this
    omega

theorem length_lt_of_readArgs {arg : TokenReader Pattern} {args : List Pattern}
    {tokens rest : List Token} (hread : readArgs arg tokens = .ok (args, rest)) :
    rest.length < tokens.length := by
  unfold readArgs at hread
  split at hread
  · exact length_lt_of_readArgsOnto hread
  · split at hread
    · simp only [Except.ok.injEq, Prod.mk.injEq] at hread
      simp [hread.2]
    · exact length_lt_of_readArgsOnto hread

theorem length_lt_of_readWith {arg : TokenReader Pattern} {pattern : Pattern}
    {tokens rest : List Token} (hread : readWith arg tokens = .ok (pattern, rest)) :
    rest.length < tokens.length := by
  unfold readWith at hread
  repeat' split at hread
  all_goals try contradiction
  all_goals simp only [Except.ok.injEq, Prod.mk.injEq] at hread
  all_goals obtain ⟨-, rfl⟩ := hread
  · simp
  · simp
  · next hargs =>
    have := length_lt_of_readArgs hargs
    simp only [List.length_cons]
    omega
  · simp

/-- The reader for patterns that may nest `room` levels deep. -/
def reader (limit : Nat) : Nat → TokenReader Pattern
  | 0 => TokenReader.tooDeep limit
  | room + 1 =>
    { read := fun tokens => readWith (reader limit room) tokens
      shrinks := length_lt_of_readWith }

end Dataflow.Pattern
