import Dataflow.Proofs.Mark
import Dataflow.Syntax.Program

/-!
# What the program reader reads

A run is a list of tokens without a semicolon.  The reader for programs carries
the statements that it has read and the tokens of the run that it is in.  This
module removes both: a program whose tokens begin with a run and its semicolon
is read by reading that run alone and then, if it is a statement, the rest alone.
-/

namespace Dataflow

/-- A run holds no semicolon. -/
def IsRun (tokens : List Token) : Prop :=
  .mark .semicolon ∉ tokens

@[simp]
theorem isRun_nil : IsRun [] := List.not_mem_nil

@[simp]
theorem isRun_cons {token : Token} {tokens : List Token} :
    IsRun (token :: tokens) ↔ token ≠ .mark .semicolon ∧ IsRun tokens := by
  rw [IsRun, IsRun, List.mem_cons, not_or]
  exact and_congr_left fun _ => ne_comm

@[simp]
theorem isRun_append {front rest : List Token} :
    IsRun (front ++ rest) ↔ IsRun front ∧ IsRun rest := by
  rw [IsRun, List.mem_append, not_or]
  rfl

/-- A token list is a run, or begins with a run and its semicolon. -/
@[elab_as_elim]
theorem inductionOnRuns {motive : List Token → Prop}
    (tail : ∀ tokens, IsRun tokens → motive tokens)
    (run : ∀ run rest, IsRun run → motive rest → motive (run ++ .mark .semicolon :: rest))
    (tokens : List Token) : motive tokens := by
  by_cases hmem : .mark .semicolon ∈ tokens
  · obtain ⟨front, rest, heq, hfront⟩ := List.eq_append_cons_of_mem hmem
    have hlt : rest.length < tokens.length := by simp [heq, Nat.lt_add_left]
    rw [heq]
    exact run front rest hfront (inductionOnRuns tail run rest)
  · exact tail tokens hmem
termination_by tokens.length
decreasing_by exact hlt

namespace Program

/-- Inside a run the reader only collects. -/
theorem readOnto_append (limit : Nat) (statements : List Statement) {front : List Token}
    (hfront : IsRun front) (run rest : List Token) :
    readOnto limit statements run (front ++ rest) =
      readOnto limit statements (front.reverse ++ run) rest := by
  induction front generalizing run with
  | nil => rfl
  | cons token front ih =>
      obtain ⟨htoken, hfront⟩ := isRun_cons.mp hfront
      have hrole : ¬ token.role = .semicolon :=
        fun hrole => htoken (Token.role_eq_iff (m := .semicolon).mp hrole)
      calc
        readOnto limit statements run (token :: (front ++ rest)) =
            readOnto limit statements (token :: run) (front ++ rest) := if_neg hrole
        _ = readOnto limit statements (front.reverse ++ token :: run) rest := ih hfront _
        _ = readOnto limit statements ((token :: front).reverse ++ run) rest := by simp

/-- The statements already read only stand before the others. -/
theorem readOnto_statements (limit : Nat) (statements : List Statement)
    (run tokens : List Token) :
    readOnto limit statements run tokens =
      (readOnto limit [] run tokens).map (statements.reverse ++ ·) := by
  induction tokens generalizing statements run with
  | nil =>
      rw [readOnto, readOnto]
      split
      · exact congrArg Except.ok (List.append_nil _).symm
      · rfl
  | cons token rest ih =>
      by_cases hrole : token.role = .semicolon
      · rw [readOnto, readOnto, if_pos hrole, if_pos hrole]
        cases Statement.read limit run.reverse with
        | error fault => rfl
        | ok statement =>
            simp only
            rw [ih (statement :: statements), ih [statement]]
            cases readOnto limit [] [] rest with
            | error error => rfl
            | ok program => simp [Except.map]
      · rw [readOnto, readOnto, if_neg hrole, if_neg hrole]
        exact ih statements (token :: run)

/-- The first run is read alone, and the rest after it alone. -/
theorem ofTokens_run (limit : Nat) {run : List Token} (hrun : IsRun run)
    (rest : List Token) :
    ofTokens limit (run ++ .mark .semicolon :: rest) =
      match Statement.read limit run with
      | .error fault => .error (.statement run fault)
      | .ok statement => (ofTokens limit rest).map (statement :: ·) := by
  have hrole : (Token.mark .semicolon).role = .semicolon := rfl
  rw [ofTokens, readOnto_append limit [] hrun, readOnto, if_pos hrole, List.append_nil,
    List.reverse_reverse]
  cases Statement.read limit run with
  | error fault => rfl
  | ok statement => exact readOnto_statements limit [statement] [] rest

/-- Tokens without any semicolon are a program only when there are none. -/
theorem ofTokens_tail (limit : Nat) {run : List Token} (hrun : IsRun run) :
    ofTokens limit run = if run = [] then .ok [] else .error (.unterminated run) := by
  have hread := readOnto_append limit [] hrun [] []
  rw [List.append_nil, List.append_nil] at hread
  rw [ofTokens, hread, readOnto, List.reverse_reverse]
  cases run with
  | nil => rfl
  | cons token run => simp

@[simp]
theorem ofTokens_nil (limit : Nat) : ofTokens limit [] = .ok [] := rfl

/-- A run is a program of one statement when it is read as that statement. -/
theorem ofTokens_single (limit : Nat) {run : List Token} (hrun : IsRun run) :
    ofTokens limit (run ++ [.mark .semicolon]) =
      match Statement.read limit run with
      | .error fault => .error (.statement run fault)
      | .ok statement => .ok [statement] :=
  ofTokens_run limit hrun []

end Program

end Dataflow
