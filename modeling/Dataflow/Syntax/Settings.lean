import Dataflow.Syntax.Basic

/-!
# Reading settings

The settings of a configured component stand in parentheses after its name, each
as a name, an equals sign and an atom, with commas between them.  A property
that is given again replaces the value that it was given before.
-/

namespace Dataflow.Settings

/-- Properties up to the closing parenthesis, at least one, added to those
already read. -/
def readOnto (settings : Settings) : List Token → Except Fault (Settings × List Token)
  | [] => .error (.configEnded .propertyName)
  | name :: rest =>
    if name.role ≠ .identifier then .error (.unexpected .propertyName name)
    else
      match rest with
      | [] => .error (.configEnded .assignment)
      | equals :: rest =>
        if equals.role ≠ .equals then .error (.unexpected .propertyAssignment equals)
        else
          match rest with
          | [] => .error (.configEnded .propertyValue)
          | token :: rest =>
            match token.atom? with
            | none => .error (.badPropertyValue token)
            | some value =>
              match rest with
              | [] => .error (.configEnded .propertySeparator)
              | separator :: rest =>
                match separator.role with
                | .comma => readOnto (settings.insert name.text value) rest
                | .closeParen => .ok (settings.insert name.text value, rest)
                | _ => .error (.unexpected .propertySeparator separator)

/-- The settings after an opening parenthesis. -/
def read (tokens : List Token) : Except Fault (Settings × List Token) :=
  match tokens with
  | [] => readOnto empty []
  | token :: rest =>
    if token.role = .closeParen then .ok (empty, rest)
    else readOnto empty (token :: rest)

theorem length_lt_of_readOnto {settings result : Settings}
    {tokens rest : List Token} (hread : readOnto settings tokens = .ok (result, rest)) :
    rest.length < tokens.length := by
  fun_induction readOnto settings tokens <;> simp_all <;> omega

theorem length_lt_of_read {settings : Settings} {tokens rest : List Token}
    (hread : read tokens = .ok (settings, rest)) : rest.length < tokens.length := by
  unfold read at hread
  split at hread
  · exact length_lt_of_readOnto hread
  · split at hread
    · simp only [Except.ok.injEq, Prod.mk.injEq] at hread
      simp [hread.2]
    · exact length_lt_of_readOnto hread

end Dataflow.Settings
