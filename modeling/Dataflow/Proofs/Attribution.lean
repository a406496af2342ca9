import Dataflow.Proofs.Blame.Program
import Dataflow.Proofs.LimitOrder

/-!
# The statement that is to blame

A program that is refused has a first run that does not parse on its own, or else
tokens after its last semicolon.  The error belongs to that run: it shows the run's
text, blames one of the run's tokens, and names this token in its message, unless
the nesting or the length of an import is at fault.
-/

namespace Dataflow

/-- An import has the wrong number of tokens. -/
def SyntaxError.IsImportLength : SyntaxError → Prop
  | .statement _ (.importLength _ _) => True
  | _ => False

/-! ## Tokens that are blamed -/

theorem Fault.ArisesIn.exists_token? {limit : Nat} {run : List Token} {fault : Fault}
    (hfault : fault.ArisesIn limit run) (hne : run ≠ []) :
    ∃ token ∈ run, (SyntaxError.statement run fault).token? = some token := by
  rw [SyntaxError.token?]
  cases hfound : fault.found? with
  | some token => exact ⟨token, hfault.mem_of_found? hfound, rfl⟩
  | none => exact ⟨run.getLast hne, List.getLast_mem hne, List.getLast?_eq_some_getLast hne⟩

theorem SyntaxError.message_statement (run : List Token) (fault : Fault) :
    (statement run fault).message = fault.message (lastText run) := rfl

theorem SyntaxError.exists_getLast? {run : List Token} (hne : run ≠ []) :
    ∃ token, run.getLast? = some token ∧ lastText run = token.text := by
  have hlast := List.getLast?_eq_some_getLast hne
  exact ⟨run.getLast hne, hlast, by rw [lastText, hlast]; rfl⟩

/-- The text stands in the message in square brackets. -/
def Brackets (message text : String) : Prop :=
  ∃ before after, message = before ++ "[" ++ text ++ "]" ++ after

theorem brackets_append {front back : String} (before after text : String)
    (hfront : front = before ++ "[") (hback : back = "]" ++ after) :
    Brackets (front ++ text ++ back) text := by
  refine ⟨before, after, ?_⟩
  rw [hfront, hback]
  simp only [String.append_assoc]

theorem Brackets.append_left {message text : String} (hbrackets : Brackets message text)
    (front : String) : Brackets (front ++ message) text := by
  obtain ⟨before, after, rfl⟩ := hbrackets
  refine ⟨front ++ before, after, ?_⟩
  simp only [String.append_assoc]

theorem Fault.Rejects.brackets {fault : Fault} {token : Token} (hfault : fault.Rejects token)
    (last : String) : Brackets (fault.message last) token.text := by
  obtain ⟨front, hmessage⟩ := hfault.message_eq last
  have hbracket : " but found [" = " but found " ++ "[" := by decide
  rw [hmessage]
  apply brackets_append (front ++ " but found ") "."
  · rw [hbracket, String.append_assoc]
  · decide

theorem Fault.brackets_missing (last : String) : Brackets (missing.message last) last :=
  brackets_append "Expected more tokens after " " but found none." last (by decide +kernel)
    (by decide +kernel)

theorem Fault.brackets_configEnded (expected : Expectation) (last : String) :
    Brackets ((configEnded expected).message last) last :=
  (brackets_append "" "." last (by decide) (by decide)).append_left _

theorem Fault.brackets_danglingArrow (last : String) :
    Brackets ((danglingArrow (.mark .arrow)).message last) (Token.mark .arrow).text := by
  have hmessage : "The [->] operator must be followed by a flow expression, but none was found." =
      "The " ++ "[" ++ "->" ++ "]" ++
        " operator must be followed by a flow expression, but none was found." := by
    decide +kernel
  exact ⟨_, _, hmessage⟩

/-- A fault that is not about the nesting or the length of an import names the
token that it blames. -/
theorem Fault.ArisesIn.brackets {limit : Nat} {run : List Token} {fault : Fault}
    (hfault : fault.ArisesIn limit run) (hne : run ≠ [])
    (hnesting : ¬ (SyntaxError.statement run fault).IsNesting)
    (hlength : ¬ (SyntaxError.statement run fault).IsImportLength) :
    ∃ token, (SyntaxError.statement run fault).token? = some token ∧
      Brackets (SyntaxError.statement run fault).message token.text := by
  obtain ⟨last, hlast, htext⟩ := SyntaxError.exists_getLast? hne
  rw [SyntaxError.message_statement, htext]
  cases hfault with
  | tooDeep hfound => exact absurd trivial hnesting
  | importLength count hmem => exact absurd trivial hlength
  | unexpected expected hmem => exact ⟨_, rfl, (Fault.Rejects.unexpected expected).brackets _⟩
  | badPropertyValue hmem => exact ⟨_, rfl, Fault.Rejects.badPropertyValue.brackets _⟩
  | missing => exact ⟨last, hlast, brackets_missing last.text⟩
  | configEnded expected => exact ⟨last, hlast, brackets_configEnded expected last.text⟩
  | danglingArrow hmem => exact ⟨_, rfl, brackets_danglingArrow last.text⟩

theorem SyntaxError.brackets_unterminated {run : List Token} (hne : run ≠ []) :
    ∃ token, (SyntaxError.unterminated run).token? = some token ∧
      Brackets (SyntaxError.unterminated run).message token.text := by
  obtain ⟨last, hlast, htext⟩ := exists_getLast? hne
  refine ⟨last, hlast, ?_⟩
  rw [← htext]
  exact brackets_append "Expected [;] to terminate statement but ran out of tokens after " "."
    (lastText run) (by decide +kernel) (by decide +kernel)

/-- Without any token a statement is only refused when there is no room at all. -/
theorem Statement.eq_tooDeep_of_read_nil {limit : Nat} {fault : Fault}
    (herror : read limit [] = .error fault) : limit = 0 ∧ fault = .tooDeep 0 none := by
  cases limit with
  | zero => exact ⟨rfl, (Except.error.inj herror).symm⟩
  | succ room => contradiction

namespace Program

/-! ## The first refused run -/

def Parses (limit : Nat) (tokens : List Token) : Prop :=
  ∃ program, ofTokens limit tokens = .ok program

/-- `run`, which stands at this position, is the first run that does not parse on
its own with its semicolon, or else the tokens after the last semicolon, when these
do not parse on their own. -/
inductive FirstRefused (limit : Nat) (tokens : List Token) : Nat → List Token → Prop where
  | run {run : List Token} {before after : List (List Token)}
      (hruns : runs tokens = before ++ run :: after)
      (hbefore : ∀ earlier ∈ before, Parses limit (earlier ++ [.mark .semicolon]))
      (hrefused : ¬ Parses limit (run ++ [.mark .semicolon])) :
      FirstRefused limit tokens before.length run
  | remainder
      (hbefore : ∀ earlier ∈ runs tokens, Parses limit (earlier ++ [.mark .semicolon]))
      (hrefused : ¬ Parses limit (remainder tokens)) :
      FirstRefused limit tokens (runs tokens).length (remainder tokens)

section FirstRefused

variable {limit position : Nat} {tokens run rest : List Token} {error : SyntaxError}

theorem not_parses_of_error (herror : ofTokens limit tokens = .error error) :
    ¬ Parses limit tokens := by
  rintro ⟨program, hread⟩
  rw [herror] at hread
  contradiction

theorem parses_run (hrun : IsRun run) :
    Parses limit (run ++ [.mark .semicolon]) ↔
      ∃ statement, Statement.read limit run = .ok statement := by
  rw [Parses, ofTokens_single limit hrun]
  cases Statement.read limit run <;> simp

theorem parses_append (hrun : IsRun run) :
    Parses limit (run ++ .mark .semicolon :: rest) ↔
      Parses limit (run ++ [.mark .semicolon]) ∧ Parses limit rest := by
  rw [parses_run hrun, Parses, Parses, ofTokens_run limit hrun]
  cases Statement.read limit run with
  | error fault => simp
  | ok statement => cases ofTokens limit rest <;> simp [Except.map]

/-- After a run that parses the first refused run stands one place further. -/
theorem FirstRefused.cons (hrun : IsRun run)
    (hparses : Parses limit (run ++ [.mark .semicolon])) {other : List Token}
    (hfirst : FirstRefused limit rest position other) :
    FirstRefused limit (run ++ .mark .semicolon :: rest) (position + 1) other := by
  cases hfirst with
  | @run _ before after hruns hbefore hrefused =>
      have hfirst : runs (run ++ .mark .semicolon :: rest) = (run :: before) ++ other :: after := by
        rw [runs_append hrun, hruns, List.cons_append]
      exact .run hfirst (List.forall_mem_cons.mpr ⟨hparses, hbefore⟩) hrefused
  | remainder hbefore hrefused =>
      have hall : ∀ earlier ∈ runs (run ++ .mark .semicolon :: rest),
          Parses limit (earlier ++ [.mark .semicolon]) := by
        rw [runs_append hrun]
        exact List.forall_mem_cons.mpr ⟨hparses, hbefore⟩
      rw [← remainder_append hrun] at hrefused ⊢
      have hlast := FirstRefused.remainder hall hrefused
      rwa [runs_append hrun] at hlast

theorem exists_firstRefused (hrefused : ¬ Parses limit tokens) :
    ∃ position run, FirstRefused limit tokens position run := by
  induction tokens using inductionOnRuns with
  | tail tokens hrun =>
      refine ⟨_, _, .remainder ?_ ?_⟩
      · rw [runs_of_isRun hrun]
        exact nofun
      · rwa [remainder_of_isRun hrun]
  | run run rest hrun ih =>
      by_cases hparses : Parses limit (run ++ [.mark .semicolon])
      · have hrest : ¬ Parses limit rest := fun hrest =>
          hrefused ((parses_append hrun).mpr ⟨hparses, hrest⟩)
        obtain ⟨position, other, hfirst⟩ := ih hrest
        exact ⟨_, _, hfirst.cons hrun hparses⟩
      · have hfirst : runs (run ++ .mark .semicolon :: rest) = [] ++ run :: runs rest := by
          rw [runs_append hrun, List.nil_append]
        exact ⟨_, _, .run hfirst nofun hparses⟩

/-- The error of a program is that of its first refused run. -/
theorem FirstRefused.error_cases (hfirst : FirstRefused limit tokens position run)
    (herror : ofTokens limit tokens = .error error) :
    (run ≠ [] ∧ error = .unterminated run) ∨
      ∃ fault, error = .statement run fault ∧ Statement.read limit run = .error fault := by
  cases hfirst with
  | @run _ before after hruns hbefore hrefused =>
      have hmem : run ∈ runs tokens := by simp [hruns]
      have hrun := isRun_of_mem_runs hmem
      right
      cases hread : Statement.read limit run with
      | ok statement => exact absurd ((parses_run hrun).mpr ⟨statement, hread⟩) hrefused
      | error fault =>
          have hsingle : ofTokens limit (run ++ [.mark .semicolon]) =
              .error (.statement run fault) := by
            rw [ofTokens_single limit hrun, hread]
          have hfirst := ofTokens_of_runs_eq_append hruns (fun earlier hearlier => ?_) hsingle
          · exact ⟨fault, Except.error.inj (herror.symm.trans hfirst), rfl⟩
          · have hearlierRun : IsRun earlier :=
              isRun_of_mem_runs (hruns ▸ List.mem_append_left _ hearlier)
            obtain ⟨statement, hstatement⟩ := (parses_run hearlierRun).mp (hbefore earlier hearlier)
            exact ⟨statement, by rw [ofTokens_single limit hearlierRun, hstatement]⟩
  | remainder hbefore hrefused =>
      rcases ofTokens_error_cases herror with hlast | ⟨other, fault, hmem, rfl, hread⟩
      · exact .inl hlast
      · obtain ⟨statement, hstatement⟩ :=
          (parses_run (isRun_of_mem_runs hmem)).mp (hbefore other hmem)
        rw [hread] at hstatement
        contradiction

end FirstRefused

/-- A program is refused because of the first run that does not parse on its own:
the error shows the text of this run, and blames a token of it that its message
names.  Only without any room it may be an empty run, which has no token. -/
theorem ofTokens_error_attribution {limit : Nat} {tokens : List Token} {error : SyntaxError}
    (herror : ofTokens limit tokens = .error error) :
    (∃ position run, FirstRefused limit tokens position run) ∧
      ∀ position run, FirstRefused limit tokens position run →
        error.context? = some (Token.joinTexts run) ∧
          (run = [] → error.token? = none ∧ limit = 0) ∧
          (run ≠ [] → ∃ token ∈ run, error.token? = some token) ∧
          (¬ error.IsNesting → ¬ error.IsImportLength →
            ∃ token, error.token? = some token ∧ Brackets error.message token.text) := by
  constructor
  · exact exists_firstRefused (not_parses_of_error herror)
  · intro position run hfirst
    rcases hfirst.error_cases herror with ⟨hne, rfl⟩ | ⟨fault, rfl, hread⟩
    · obtain ⟨last, hlast, -⟩ := SyntaxError.exists_getLast? hne
      exact ⟨rfl, fun hnil => absurd hnil hne,
        fun _ => ⟨last, List.mem_of_getLast? hlast, hlast⟩,
        fun _ _ => SyntaxError.brackets_unterminated hne⟩
    · have harises := Statement.refusesIn_read limit run fault hread
      refine ⟨rfl, fun hnil => ?_, harises.exists_token?, fun hnesting hlength => ?_⟩
      · subst hnil
        obtain ⟨rfl, rfl⟩ := Statement.eq_tooDeep_of_read_nil hread
        exact ⟨rfl, rfl⟩
      · refine harises.brackets ?_ hnesting hlength
        rintro rfl
        obtain ⟨-, rfl⟩ := Statement.eq_tooDeep_of_read_nil hread
        exact hnesting trivial

/-- The second of two statements is blamed for the value that it lacks, and an empty
one is refused without any token when there is no room. -/
theorem ofTokens_error_second_statement :
    (∃ error, ofTokens 9 [.identifier "a", .mark .equals, .identifier "b", .mark .semicolon,
        .identifier "x", .mark .equals, .mark .semicolon] = .error error ∧
      error.context? = some "x =" ∧
        ∃ token ∈ [.identifier "x", .mark .equals], error.token? = some token ∧
          Brackets error.message token.text) ∧
      ∃ error, ofTokens 0 [.mark .semicolon] = .error error ∧ error.token? = none := by
  constructor
  · have hruns : runs [.identifier "a", .mark .equals, .identifier "b", .mark .semicolon,
        .identifier "x", .mark .equals, .mark .semicolon] =
        [[.identifier "a", .mark .equals, .identifier "b"]] ++
          [.identifier "x", .mark .equals] :: [] := rfl
    have herror : ofTokens 9 [.identifier "a", .mark .equals, .identifier "b", .mark .semicolon,
        .identifier "x", .mark .equals, .mark .semicolon] =
        .error (.statement [.identifier "x", .mark .equals] .missing) := by
      decide +kernel
    have hfirstParses : Parses 9 ([.identifier "a", .mark .equals, .identifier "b"] ++
        [.mark .semicolon]) :=
      ⟨[.assign ⟨"a", none, .atom (.identifier "b")⟩], by decide +kernel⟩
    have hfirst := FirstRefused.run hruns (List.forall_mem_singleton.mpr hfirstParses)
      (not_parses_of_error rfl)
    obtain ⟨hcontext, -, htoken, hmessage⟩ := (ofTokens_error_attribution herror).2 _ _ hfirst
    obtain ⟨token, hmem, htoken⟩ := htoken (List.cons_ne_nil _ _)
    obtain ⟨other, hother, hbrackets⟩ := hmessage id id
    obtain rfl := Option.some.inj (htoken.symm.trans hother)
    exact ⟨_, herror, hcontext, token, hmem, htoken, hbrackets⟩
  · have hruns : runs [.mark .semicolon] = [] ++ [] :: [] := rfl
    have herror : ofTokens 0 [.mark .semicolon] = .error (.statement [] (.tooDeep 0 none)) := rfl
    have hfirst := FirstRefused.run hruns nofun (not_parses_of_error herror)
    exact ⟨_, herror, (((ofTokens_error_attribution herror).2 _ _ hfirst).2.1 rfl).1⟩

end Program

end Dataflow
