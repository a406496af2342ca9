import Dataflow.Proofs.Reading.Program
import Mathlib.Data.List.Forall2

/-!
# Statements are independent

A program is cut at its semicolons into runs and a remainder.  Each run is read
as if it stood alone, the first run that is refused decides, and the remainder
only matters when every run is a statement.
-/

namespace Dataflow.Program

/-- The runs that end in a semicolon. -/
def runs (tokens : List Token) : List (List Token) :=
  (tokens.splitOn (.mark .semicolon)).dropLast

/-- The tokens after the last semicolon. -/
def remainder (tokens : List Token) : List Token :=
  (tokens.splitOn (.mark .semicolon)).getLast?.getD []

theorem splitOn_run {run : List Token} (hrun : IsRun run) :
    run.splitOn (.mark .semicolon) = [run] :=
  List.splitOn_eq_singleton hrun

@[simp]
theorem runs_of_isRun {run : List Token} (hrun : IsRun run) : runs run = [] := by
  rw [runs, splitOn_run hrun]
  rfl

@[simp]
theorem remainder_of_isRun {run : List Token} (hrun : IsRun run) : remainder run = run := by
  rw [remainder, splitOn_run hrun]
  rfl

@[simp]
theorem runs_append {run : List Token} (hrun : IsRun run) (rest : List Token) :
    runs (run ++ .mark .semicolon :: rest) = run :: runs rest := by
  rw [runs, List.splitOn_append_cons_self_of_not_mem hrun]
  exact List.dropLast_cons_of_ne_nil (List.splitOn_ne_nil _ _)

@[simp]
theorem remainder_append {run : List Token} (hrun : IsRun run) (rest : List Token) :
    remainder (run ++ .mark .semicolon :: rest) = remainder rest := by
  rw [remainder, remainder, List.splitOn_append_cons_self_of_not_mem hrun,
    List.getLast?_cons_of_ne_nil (List.splitOn_ne_nil _ _)]

/-- Nothing else than the runs, their semicolons and the remainder is in the
tokens. -/
theorem flatMap_runs_append_remainder (tokens : List Token) :
    (runs tokens).flatMap (· ++ [.mark .semicolon]) ++ remainder tokens = tokens := by
  induction tokens using inductionOnRuns with
  | tail tokens hrun => rw [runs_of_isRun hrun, remainder_of_isRun hrun, List.flatMap_nil,
      List.nil_append]
  | run run rest hrun ih =>
      rw [runs_append hrun, remainder_append hrun, List.flatMap_cons, List.append_assoc, ih,
        List.append_assoc, List.singleton_append]

theorem isRun_of_mem_runs {tokens run : List Token} (hmem : run ∈ runs tokens) :
    IsRun run := by
  induction tokens using inductionOnRuns with
  | tail tokens hrun =>
      rw [runs_of_isRun hrun] at hmem
      contradiction
  | run first rest hrun ih =>
      rw [runs_append hrun] at hmem
      rcases List.mem_cons.mp hmem with rfl | hmem
      · exact hrun
      · exact ih hmem

/-- A run and its semicolon stand together in the tokens. -/
theorem infix_of_mem_runs {tokens run : List Token} (hmem : run ∈ runs tokens) :
    run ++ [.mark .semicolon] <:+: tokens := by
  induction tokens using inductionOnRuns with
  | tail tokens hrun =>
      rw [runs_of_isRun hrun] at hmem
      contradiction
  | run first rest hrun ih =>
      rw [runs_append hrun] at hmem
      rcases List.mem_cons.mp hmem with rfl | hmem
      · exact ⟨[], rest, by simp⟩
      · exact (ih hmem).trans ⟨first ++ [.mark .semicolon], [], by simp⟩

theorem infix_remainder (tokens : List Token) : remainder tokens <:+: tokens :=
  ⟨_, [], (List.append_nil _).trans (flatMap_runs_append_remainder tokens)⟩

theorem isRun_remainder (tokens : List Token) : IsRun (remainder tokens) := by
  induction tokens using inductionOnRuns with
  | tail tokens hrun => rwa [remainder_of_isRun hrun]
  | run run rest hrun ih => rwa [remainder_append hrun]

/-- An error is that of a run which has a fault when it is read alone, or else
there are tokens after the last semicolon. -/
theorem ofTokens_error_cases {limit : Nat} {tokens : List Token} {error : SyntaxError}
    (herror : ofTokens limit tokens = .error error) :
    (remainder tokens ≠ [] ∧ error = .unterminated (remainder tokens)) ∨
      ∃ run fault, run ∈ runs tokens ∧ error = .statement run fault ∧
        Statement.read limit run = .error fault := by
  induction tokens using inductionOnRuns with
  | tail tokens hrun =>
      rw [ofTokens_tail limit hrun] at herror
      rw [remainder_of_isRun hrun]
      split at herror
      · contradiction
      · next hne => exact .inl ⟨hne, (Except.error.inj herror).symm⟩
  | run run rest hrun ih =>
      rw [ofTokens_run limit hrun] at herror
      rw [remainder_append hrun, runs_append hrun]
      split at herror
      · next fault hread =>
        exact .inr ⟨run, fault, List.mem_cons_self, (Except.error.inj herror).symm, hread⟩
      · cases hrest : ofTokens limit rest with
        | ok program =>
            rw [hrest] at herror
            contradiction
        | error other =>
            rw [hrest] at herror
            obtain rfl := Except.error.inj herror
            refine (ih hrest).imp_right ?_
            rintro ⟨other, fault, hmem, hfault, hread⟩
            exact ⟨other, fault, List.mem_cons_of_mem run hmem, hfault, hread⟩

/-- When every run is a statement, only the remainder can be an error. -/
theorem ofTokens_of_forall_runs {limit : Nat} {tokens : List Token} {program : Program}
    (hruns : List.Forall₂
      (fun run statement => ofTokens limit (run ++ [.mark .semicolon]) = .ok [statement])
      (runs tokens) program) :
    ofTokens limit tokens =
      if remainder tokens = [] then .ok program
      else .error (.unterminated (remainder tokens)) := by
  induction tokens using inductionOnRuns generalizing program with
  | tail tokens hrun =>
      rw [runs_of_isRun hrun] at hruns
      cases hruns
      rw [remainder_of_isRun hrun, ofTokens_tail limit hrun]
  | run run rest hrun ih =>
      rw [runs_append hrun] at hruns
      obtain ⟨statement, program, hhead, htail, rfl⟩ := List.forall₂_cons_left_iff.mp hruns
      rw [ofTokens_single limit hrun] at hhead
      rw [ofTokens_run limit hrun, remainder_append hrun, ih htail]
      split at hhead
      · contradiction
      · obtain rfl := List.head_eq_of_cons_eq (Except.ok.inj hhead)
        split <;> rfl

/-- The error of the first run that is refused is the error of the program. -/
theorem ofTokens_of_runs_eq_append {limit : Nat} {tokens run : List Token}
    {before after : List (List Token)} {error : SyntaxError}
    (hruns : runs tokens = before ++ run :: after)
    (hbefore : ∀ earlier ∈ before, ∃ statement,
      ofTokens limit (earlier ++ [.mark .semicolon]) = .ok [statement])
    (hrun : ofTokens limit (run ++ [.mark .semicolon]) = .error error) :
    ofTokens limit tokens = .error error := by
  induction tokens using inductionOnRuns generalizing before with
  | tail tokens htokens =>
      rw [runs_of_isRun htokens] at hruns
      simp at hruns
  | run first rest hfirst ih =>
      rw [runs_append hfirst] at hruns
      rw [ofTokens_run limit hfirst]
      cases before with
      | nil =>
          obtain ⟨rfl, -⟩ := List.cons.inj hruns
          rw [ofTokens_single limit hfirst] at hrun
          split at hrun
          · exact hrun
          · contradiction
      | cons earlier before =>
          obtain ⟨rfl, hrest⟩ := List.cons.inj hruns
          obtain ⟨hearlier, hbefore⟩ := List.forall_mem_cons.mp hbefore
          obtain ⟨statement, hstatement⟩ := hearlier
          rw [ofTokens_single limit hfirst] at hstatement
          rw [ih hrest hbefore]
          split at hstatement
          · contradiction
          · rfl

/-- Tokens that are cut after a semicolon are read on both sides of the cut. -/
theorem ofTokens_append (limit : Nat) {front : List Token}
    (hfront : front = [] ∨ front.getLast? = some (.mark .semicolon)) (rest : List Token) :
    ofTokens limit (front ++ rest) = do
      let first ← ofTokens limit front
      let second ← ofTokens limit rest
      return first ++ second := by
  induction front using inductionOnRuns with
  | tail tokens hrun =>
      rcases hfront with rfl | hlast
      · rw [List.nil_append, ofTokens_nil]
        cases ofTokens limit rest <;> rfl
      · exact absurd (List.mem_of_getLast? hlast) hrun
  | run run middle hrun ih =>
      have hmiddle : middle = [] ∨ middle.getLast? = some (.mark .semicolon) := by
        cases middle with
        | nil => exact .inl rfl
        | cons token tail => simpa using hfront
      rw [List.append_assoc, List.cons_append, ofTokens_run limit hrun,
        ofTokens_run limit hrun, ih hmiddle]
      cases Statement.read limit run with
      | error fault => rfl
      | ok statement =>
          cases ofTokens limit middle with
          | error error => rfl
          | ok first => cases ofTokens limit rest <;> rfl

/-- Statements are read independently of each other, and the first refusal
decides. -/
theorem ofTokens_eq_of_runs (limit : Nat) (tokens : List Token) :
    (∀ program : Program,
      List.Forall₂
          (fun run statement => ofTokens limit (run ++ [.mark .semicolon]) = .ok [statement])
          (runs tokens) program →
        (remainder tokens = [] → ofTokens limit tokens = .ok program) ∧
          (remainder tokens ≠ [] → ∃ error, ofTokens limit tokens = .error error ∧
            error.message = "Expected [;] to terminate statement but ran out of tokens after [" ++
              SyntaxError.lastText (remainder tokens) ++ "]." ∧
            error.token? = (remainder tokens).getLast? ∧
            error.context? = some (Token.joinTexts (remainder tokens)))) ∧
      (∀ before run after error, runs tokens = before ++ run :: after →
        (∀ earlier ∈ before, ∃ statement,
          ofTokens limit (earlier ++ [.mark .semicolon]) = .ok [statement]) →
        ofTokens limit (run ++ [.mark .semicolon]) = .error error →
        ofTokens limit tokens = .error error) ∧
      (∀ front rest, tokens = front ++ rest →
        (front = [] ∨ front.getLast? = some (.mark .semicolon)) →
        ofTokens limit tokens = do
          let first ← ofTokens limit front
          let second ← ofTokens limit rest
          return first ++ second) := by
  refine ⟨fun program hruns => ⟨fun hnil => ?_, fun hne => ?_⟩, ?_, ?_⟩
  · rw [ofTokens_of_forall_runs hruns, if_pos hnil]
  · rw [ofTokens_of_forall_runs hruns, if_neg hne]
    exact ⟨.unterminated (remainder tokens), rfl, rfl, rfl, rfl⟩
  · intro before run after error hruns hbefore hrun
    exact ofTokens_of_runs_eq_append hruns hbefore hrun
  · rintro front rest rfl hfront
    exact ofTokens_append limit hfront rest

end Dataflow.Program
