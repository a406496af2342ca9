import Dataflow.Syntax.Basic

/-!
# Marks

Eleven tokens have a part of their own in the grammar: the punctuation, the two
operators and the two keywords that open a statement.  The role of a token
decides whether it is one of them, and which, so that a reader which looks at
roles and a grammar which is written with tokens speak of the same thing.
-/

namespace Dataflow

namespace Token

/-- The tokens with a fixed text that statements are made of. -/
inductive Mark where
  | semicolon
  | comma
  | colon
  | openBrace
  | closeBrace
  | openParen
  | closeParen
  | arrow
  | equals
  | importWord
  | exportWord
  deriving DecidableEq

def mark : Mark → Token
  | .semicolon => ⟨.symbol, ";"⟩
  | .comma => ⟨.symbol, ","⟩
  | .colon => ⟨.symbol, ":"⟩
  | .openBrace => ⟨.symbol, "\x7b"⟩
  | .closeBrace => ⟨.symbol, "\x7d"⟩
  | .openParen => ⟨.symbol, "("⟩
  | .closeParen => ⟨.symbol, ")"⟩
  | .arrow => ⟨.operator, "->"⟩
  | .equals => ⟨.operator, "="⟩
  | .importWord => ⟨.keyword, "import"⟩
  | .exportWord => ⟨.keyword, "export"⟩

def identifier (name : String) : Token := ⟨.identifier, name⟩

def literal (text : String) : Token := ⟨.numeral, text⟩

def Mark.role : Mark → Role
  | .semicolon => .semicolon
  | .comma => .comma
  | .colon => .colon
  | .openBrace => .openBrace
  | .closeBrace => .closeBrace
  | .openParen => .openParen
  | .closeParen => .closeParen
  | .arrow => .arrow
  | .equals => .equals
  | .importWord => .importWord
  | .exportWord => .exportWord

@[simp]
theorem role_mark (m : Mark) : (mark m).role = m.role := by
  cases m <;> rfl

@[simp]
theorem role_identifier (name : String) : (identifier name).role = .identifier := rfl

@[simp]
theorem role_literal (text : String) : (literal text).role = .literal := rfl

@[simp]
theorem text_identifier (name : String) : (identifier name).text = name := rfl

@[simp]
theorem text_literal (text : String) : (literal text).text = text := rfl

theorem symbolRole_eq {text : String} {m : Mark} (hrole : symbolRole text = m.role) :
    ⟨.symbol, text⟩ = mark m := by
  unfold symbolRole at hrole
  repeat' split at hrole
  all_goals cases m <;> simp_all [Mark.role, mark]

theorem operatorRole_eq {text : String} {m : Mark} (hrole : operatorRole text = m.role) :
    ⟨.operator, text⟩ = mark m := by
  unfold operatorRole at hrole
  repeat' split at hrole
  all_goals cases m <;> simp_all [Mark.role, mark]

theorem keywordRole_eq {text : String} {m : Mark} (hrole : keywordRole text = m.role) :
    ⟨.keyword, text⟩ = mark m := by
  unfold keywordRole at hrole
  repeat' split at hrole
  all_goals cases m <;> simp_all [Mark.role, mark]

@[simp]
theorem mark_inj {left right : Mark} : mark left = mark right ↔ left = right := by
  constructor
  · intro heq
    have hrole := congrArg role heq
    rw [role_mark, role_mark] at hrole
    cases left <;> cases right <;> first | rfl | contradiction
  · exact congrArg mark

@[simp]
theorem mark_ne_identifier (m : Mark) (name : String) : mark m ≠ identifier name := by
  intro heq
  have hrole := congrArg role heq
  cases m <;> contradiction

@[simp]
theorem identifier_ne_mark (name : String) (m : Mark) : identifier name ≠ mark m :=
  (mark_ne_identifier m name).symm

@[simp]
theorem mark_ne_literal (m : Mark) (text : String) : mark m ≠ literal text := by
  intro heq
  have hrole := congrArg role heq
  cases m <;> contradiction

/-- A mark is the only token that plays its role. -/
theorem role_eq_iff {token : Token} {m : Mark} : token.role = m.role ↔ token = mark m := by
  constructor
  · intro hrole
    obtain ⟨kind, text⟩ := token
    cases kind with
    | keyword => exact keywordRole_eq hrole
    | symbol => exact symbolRole_eq hrole
    | operator => exact operatorRole_eq hrole
    | identifier => cases m <;> contradiction
    | numeral => cases m <;> contradiction
  · rintro rfl
    exact role_mark m

theorem role_ne_of_head?_ne {token : Token} {rest : List Token} {m : Mark}
    (hhead : (token :: rest).head? ≠ some (mark m)) : token.role ≠ m.role := by
  intro hrole
  apply hhead
  rw [List.head?_cons, role_eq_iff.mp hrole]

/-- Only a name or a literal plays a role that is shared by many tokens. -/
theorem kind_eq_of_role {token : Token} :
    (token.role = .identifier → token.kind = .identifier) ∧
      (token.role = .literal → token.kind = .numeral) := by
  obtain ⟨kind, text⟩ := token
  cases kind <;> simp [role, keywordRole, symbolRole, operatorRole] <;> grind

theorem eq_identifier_of_role {token : Token} (hrole : token.role = .identifier) :
    token = identifier token.text := by
  have hkind := kind_eq_of_role.1 hrole
  rw [identifier, ← hkind]

theorem eq_literal_of_role {token : Token} (hrole : token.role = .literal) :
    token = literal token.text := by
  have hkind := kind_eq_of_role.2 hrole
  rw [literal, ← hkind]

end Token

theorem expectRole_of_eq {role : Token.Role} {token : Token} (hrole : token.role = role)
    (expected : Expectation) (rest : List Token) :
    expectRole role expected (token :: rest) = .ok (token, rest) :=
  if_pos (decide_eq_true hrole)

theorem expectRole_of_ne {role : Token.Role} {token : Token} (hrole : token.role ≠ role)
    (expected : Expectation) (rest : List Token) :
    expectRole role expected (token :: rest) = .error (.unexpected expected token) :=
  if_neg (ne_true_of_eq_false (decide_eq_false hrole))

theorem expectRole_eq_ok_iff {role : Token.Role} {expected : Expectation}
    {tokens rest : List Token} {token : Token} :
    expectRole role expected tokens = .ok (token, rest) ↔
      tokens = token :: rest ∧ token.role = role := by
  cases tokens with
  | nil => simp [expectRole, expectToken]
  | cons first tail =>
      rw [expectRole, expectToken]
      split
      · next hrole =>
        rw [decide_eq_true_iff] at hrole
        rw [Except.ok.injEq, Prod.mk.injEq, List.cons.injEq]
        constructor
        · rintro ⟨rfl, rfl⟩
          exact ⟨⟨rfl, rfl⟩, hrole⟩
        · exact fun h => h.1
      · next hrole =>
        rw [decide_eq_true_iff] at hrole
        constructor
        · intro hread
          contradiction
        · rintro ⟨heq, htoken⟩
          obtain ⟨rfl, rfl⟩ := List.cons.inj heq
          contradiction

end Dataflow
