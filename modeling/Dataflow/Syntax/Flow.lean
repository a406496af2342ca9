import Dataflow.Syntax.Pattern
import Dataflow.Syntax.Settings

/-!
# Reading flows and maps

A flow is a sequence of steps.  Arrows between steps may be left out or given
several times, also before the first step, but after an arrow the flow has to go
on.  A flow with one step is that step.  A step is an atom, a configured
component or a map, and the values of a map are flows again, which end at a comma
or a closing brace.  A map nests one level deeper than the flow it is a step of,
and its keys and values one level deeper than the map.
-/

namespace Dataflow

/-- The value of a map entry ends before a comma or a closing brace. -/
def Token.endsEntry (token : Token) : Bool :=
  token.role = .comma || token.role = .closeBrace

namespace Expr

/-- The expression that some steps are, and the tokens after it. -/
def ofSteps (steps : List Expr) (rest : List Token) : Except Fault (Expr × List Token) :=
  match ofSteps? steps, rest with
  | some expr, _ => .ok (expr, rest)
  | none, [] => .error .missing
  | none, token :: _ => .error (.unexpected .flow token)

/-- Steps up to the end or to the first token that ends the flow, after those
already read, which are in reverse order. -/
def readStepsOnto (map : TokenReader (List (Pattern × Expr))) (ends : Token → Bool)
    (steps : List Expr) (tokens : List Token) : Except Fault (Expr × List Token) :=
  match tokens with
  | [] => ofSteps steps.reverse []
  | token :: rest =>
    if ends token then ofSteps steps.reverse (token :: rest)
    else
      match token.role with
      | .arrow =>
        match rest with
        | [] => .error (.danglingArrow token)
        | next :: after =>
          if ends next then .error (.danglingArrow token)
          else readStepsOnto map ends steps (next :: after)
      | .openBrace =>
        match _hread : map.read (token :: rest) with
        | .error fault => .error fault
        | .ok (entries, after) => readStepsOnto map ends (.map entries :: steps) after
      | .identifier =>
        match rest with
        | [] => readStepsOnto map ends (.atom (.identifier token.text) :: steps) []
        | next :: inner =>
          if next.role = .openParen then
            match _hread : Settings.read inner with
            | .error fault => .error fault
            | .ok (settings, after) =>
              readStepsOnto map ends (.config token.text settings :: steps) after
          else
            readStepsOnto map ends (.atom (.identifier token.text) :: steps) (next :: inner)
      | .literal => readStepsOnto map ends (.atom (.literal token.text) :: steps) rest
      | _ => .error (.unexpected .flowStep token)
termination_by tokens.length
decreasing_by
  all_goals simp only [List.length_cons]
  · omega
  · exact map.shrinks _hread
  · simp
  · have := Settings.length_lt_of_read _hread
    omega
  · omega
  · omega

/-- Entries up to the closing brace, at least one, after those already read,
which are in reverse order. -/
def readEntriesOnto (key : TokenReader Pattern) (value : TokenReader Expr)
    (entries : List (Pattern × Expr)) (tokens : List Token) :
    Except Fault (List (Pattern × Expr) × List Token) :=
  match _hkey : key.read tokens with
  | .error fault => .error fault
  | .ok (_, []) => .error .missing
  | .ok (pattern, colon :: afterColon) =>
    if colon.role ≠ .colon then .error (.unexpected .mapColon colon)
    else
      match _hvalue : value.read afterColon with
      | .error fault => .error fault
      | .ok (_, []) => .error .missing
      | .ok (expr, separator :: rest) =>
        if separator.role = .closeBrace then .ok (((pattern, expr) :: entries).reverse, rest)
        else readEntriesOnto key value ((pattern, expr) :: entries) rest
termination_by tokens.length
decreasing_by
  have hkey := key.shrinks _hkey
  have hvalue := value.shrinks _hvalue
  simp only [List.length_cons] at hkey hvalue
  omega

/-- A map whose keys are read by `key` and whose values by `value`. -/
def readMapWith (key : TokenReader Pattern) (value : TokenReader Expr)
    (tokens : List Token) : Except Fault (List (Pattern × Expr) × List Token) :=
  match expectRole .openBrace .mapStart tokens with
  | .error fault => .error fault
  | .ok (_, []) => readEntriesOnto key value [] []
  | .ok (_, token :: rest) =>
    if token.role = .closeBrace then .ok ([], rest)
    else readEntriesOnto key value [] (token :: rest)

theorem ofSteps_eq_ok {steps : List Expr} {tokens rest : List Token} {expr : Expr}
    (hsteps : ofSteps steps tokens = .ok (expr, rest)) :
    ofSteps? steps = some expr ∧ rest = tokens := by
  unfold ofSteps at hsteps
  split at hsteps
  · next hexpr =>
    cases hsteps
    exact ⟨hexpr, rfl⟩
  · contradiction
  · contradiction

/-- Every step takes a token, and a flow without steps is refused. -/
theorem length_le_of_readStepsOnto {map : TokenReader (List (Pattern × Expr))}
    {ends : Token → Bool} {steps : List Expr} {tokens rest : List Token} {expr : Expr}
    (hread : readStepsOnto map ends steps tokens = .ok (expr, rest)) :
    rest.length ≤ tokens.length ∧ (steps = [] → rest.length < tokens.length) := by
  fun_induction readStepsOnto map ends steps tokens with
  | case1 | case2 =>
    obtain ⟨hsteps, rfl⟩ := ofSteps_eq_ok hread
    refine ⟨Nat.le_refl _, fun hnil => ?_⟩
    simp [hnil, ofSteps?] at hsteps
  | case3 | case4 | case6 | case9 | case13 => simp at hread
  | case5 steps token next after _ _ _ ih =>
    have := ih hread
    simp only [List.length_cons] at this ⊢
    omega
  | case7 steps token after _ _ entries inner hmap ih =>
    have := ih hread
    have := map.shrinks hmap
    simp only [List.length_cons] at this ⊢
    omega
  | case10 steps token _ _ next after _ settings inner hsettings ih =>
    have := ih hread
    have := Settings.length_lt_of_read hsettings
    simp only [List.length_cons]
    omega
  | case8 | case11 | case12 =>
    rename_i ih
    have := ih hread
    simp only [List.length_cons] at this ⊢
    omega

theorem length_lt_of_readStepsOnto {map : TokenReader (List (Pattern × Expr))}
    {ends : Token → Bool} {tokens rest : List Token} {expr : Expr}
    (hread : readStepsOnto map ends [] tokens = .ok (expr, rest)) :
    rest.length < tokens.length :=
  (length_le_of_readStepsOnto hread).2 rfl

theorem length_lt_of_readEntriesOnto {key : TokenReader Pattern} {value : TokenReader Expr}
    {entries result : List (Pattern × Expr)} {tokens rest : List Token}
    (hread : readEntriesOnto key value entries tokens = .ok (result, rest)) :
    rest.length < tokens.length := by
  fun_induction readEntriesOnto key value entries tokens with
  | case1 | case2 | case3 | case4 | case5 => simp at hread
  | case6 entries tokens pattern colon afterColon hkey _ expr separator after hvalue _ =>
    simp only [Except.ok.injEq, Prod.mk.injEq] at hread
    obtain ⟨-, rfl⟩ := hread
    have := key.shrinks hkey
    have := value.shrinks hvalue
    simp only [List.length_cons] at *
    omega
  | case7 entries tokens pattern colon afterColon hkey _ expr separator after hvalue _ ih =>
    have := ih hread
    have := key.shrinks hkey
    have := value.shrinks hvalue
    simp only [List.length_cons] at *
    omega

theorem length_lt_of_readMapWith {key : TokenReader Pattern} {value : TokenReader Expr}
    {entries : List (Pattern × Expr)} {tokens rest : List Token}
    (hread : readMapWith key value tokens = .ok (entries, rest)) :
    rest.length < tokens.length := by
  unfold readMapWith at hread
  split at hread
  · contradiction
  · have := length_lt_of_readEntriesOnto hread
    simp at this
  · next hbrace =>
    have hbrace := length_lt_of_expectRole hbrace
    simp only [List.length_cons] at hbrace
    split at hread
    · simp only [Except.ok.injEq, Prod.mk.injEq] at hread
      obtain ⟨-, rfl⟩ := hread
      omega
    · have := length_lt_of_readEntriesOnto hread
      simp only [List.length_cons] at this
      omega

mutual

/-- The reader for flows that may nest `room` levels deep and end where `ends`
says.  The reader for the next level is only made once there are tokens to read,
so room that is not needed costs nothing. -/
def flowReader (limit : Nat) (ends : Token → Bool) : Nat → TokenReader Expr
  | 0 => TokenReader.tooDeep limit
  | room + 1 =>
    { read := fun tokens => readStepsOnto (mapReader limit room) ends [] tokens
      shrinks := length_lt_of_readStepsOnto }

/-- The reader for maps that may nest `room` levels deep. -/
def mapReader (limit : Nat) : Nat → TokenReader (List (Pattern × Expr))
  | 0 => TokenReader.tooDeep limit
  | room + 1 =>
    { read := fun tokens =>
        readMapWith (Pattern.reader limit room) (flowReader limit Token.endsEntry room) tokens
      shrinks := length_lt_of_readMapWith }

end

end Expr

end Dataflow
