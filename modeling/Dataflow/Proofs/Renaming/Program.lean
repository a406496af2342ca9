import Dataflow.Program.DecidableEq
import Dataflow.Proofs.Attribution
import Dataflow.Proofs.Renaming.Reading

/-!
# Renamed programs

Names and literals are opaque.  Renamed tokens are a program exactly when the tokens
are one, namely the renamed program if different names stay different.  When they
are refused, the statement that is to blame is the same one, with its tokens renamed.
-/

namespace Dataflow

variable {ρ : Renaming}

/-! ## Statements -/

theorem follows_expectName (expected : Expectation) (tokens : List Token) :
    Follows ρ (Reading ρ fun token renamed => renamed.text = ρ.name token.text)
      (expectRole .identifier expected tokens)
      (expectRole .identifier expected (tokens.map (Token.rename ρ))) := by
  apply (follows_expectRole ρ _ expected tokens).imp
  rintro token _ rest hread rfl
  exact Token.text_rename_of_identifier ρ (expectRole_eq_ok_iff.mp hread).2

theorem Signature.follows_read (tokens : List Token) :
    Follows ρ (Reading ρ (Becomes (Signature.rename ρ))) (Signature.read tokens)
      (Signature.read (tokens.map (Token.rename ρ))) := by
  apply (follows_expectName _ tokens).bind
  intro base base' rest _ hbase
  cases rest with
  | nil => exact .read (by rw [Becomes, hbase]; rfl) []
  | cons next after =>
      simp only [List.map_cons, Token.role_rename]
      split
      · apply (follows_expectName _ after).bind
        intro output output' rest _ houtput
        exact .read (by rw [Becomes, hbase, houtput]; rfl) rest
      · exact .read (by rw [Becomes, hbase]; rfl) (next :: after)

namespace Assignment

theorem follows_readSignature (tokens : List Token) :
    Follows ρ (Reading ρ (Becomes (Option.map (Signature.rename ρ)))) (readSignature tokens)
      (readSignature (tokens.map (Token.rename ρ))) := by
  cases tokens with
  | nil => exact .error .missing
  | cons next rest =>
      rw [List.map_cons, readSignature, readSignature, Token.role_rename]
      split
      · apply (Signature.follows_read rest).bind
        rintro signature _ rest - rfl
        exact .renamed (some signature) rest
      · exact .renamed none (next :: rest)

theorem follows_read (limit room : Nat) (tokens : List Token) :
    Follows ρ (Corresponds ρ (Assignment.rename ρ)) (read limit room tokens)
      (read limit room (tokens.map (Token.rename ρ))) := by
  cases room with
  | zero => exact .tooDeep limit tokens
  | succ room =>
      apply (follows_expectName _ tokens).bind
      intro name name' rest _ hnameText
      apply (follows_readSignature rest).bind
      rintro signature _ rest - rfl
      apply (follows_expectRole ρ _ _ rest).bind
      intro equals equals' rest _ _
      dsimp only
      rw [List.isEmpty_map]
      split
      · exact .error .missing
      · apply ((Expr.follows_room limit room).1 _ Expr.endsLikeEntry_never rest).bind
        intro value value' rest _ hvalue
        refine .ok fun hname => ?_
        rw [Becomes, hnameText, hvalue hname]
        rfl

end Assignment

namespace Statement

theorem follows_readImport (limit room : Nat) (keyword : Token) (tokens : List Token) :
    Follows ρ (Corresponds ρ (Statement.rename ρ)) (readImport limit room keyword tokens)
      (readImport limit room (keyword.rename ρ) (tokens.map (Token.rename ρ))) := by
  cases room with
  | zero => exact .error (.tooDeep limit (some keyword))
  | succ room =>
      rw [readImport, readImport, List.length_map]
      split
      · exact .error (.importLength keyword (tokens.length + 1))
      · apply (follows_expectName _ tokens).bind
        intro name name' rest _ hnameText
        apply (follows_expectRole ρ _ _ rest).bind
        intro colon colon' rest _ _
        apply (Signature.follows_read rest).bind
        rintro signature _ rest - rfl
        cases rest with
        | nil => exact .ok fun _ => by rw [Becomes, hnameText]; rfl
        | cons next rest => exact .error (.unexpected .importArrow next)

theorem follows_readExport (limit room : Nat) (keyword : Token) (tokens : List Token) :
    Follows ρ (Corresponds ρ (Statement.rename ρ)) (readExport limit room keyword tokens)
      (readExport limit room (keyword.rename ρ) (tokens.map (Token.rename ρ))) := by
  cases room with
  | zero => exact .error (.tooDeep limit (some keyword))
  | succ room =>
      rw [readExport, readExport, List.isEmpty_map]
      split
      · exact .error .missing
      · exact (Assignment.follows_read limit room tokens).bind_ok
          fun _ _ hvalue hname => congrArg Statement.exportFlow (hvalue hname)

/-- A statement with renamed tokens is the renamed statement, or has the renamed
fault. -/
theorem follows_read (ρ : Renaming) (limit : Nat) (tokens : List Token) :
    Follows ρ (Corresponds ρ (Statement.rename ρ)) (read limit tokens)
      (read limit (tokens.map (Token.rename ρ))) := by
  cases limit with
  | zero => exact .tooDeep 0 tokens
  | succ room =>
      cases tokens with
      | nil => exact .ok fun _ => rfl
      | cons first rest =>
          rw [List.map_cons, read, read, Token.role_rename]
          split
          · exact follows_readImport _ _ first rest
          · exact follows_readExport _ _ first rest
          · exact (Assignment.follows_read _ _ (first :: rest)).bind_ok
              fun _ _ hvalue hname => congrArg Statement.assign (hvalue hname)
          · exact .error (.unexpected .assignedName first)

end Statement

namespace Program

/-! ## Runs -/

theorem isRun_rename {run : List Token} (hrun : IsRun run) :
    IsRun (run.map (Token.rename ρ)) := by
  intro hmem
  obtain ⟨token, htoken, hrenamed⟩ := List.mem_map.mp hmem
  have hrole := Token.role_rename ρ token
  rw [hrenamed] at hrole
  exact hrun (Token.role_eq_iff (m := .semicolon).mp hrole.symm ▸ htoken)

theorem map_rename_append (run rest : List Token) :
    (run ++ .mark .semicolon :: rest).map (Token.rename ρ) =
      run.map (Token.rename ρ) ++ .mark .semicolon :: rest.map (Token.rename ρ) := by
  rw [List.map_append, List.map_cons, Token.rename_mark]

theorem runs_rename (tokens : List Token) :
    runs (tokens.map (Token.rename ρ)) = (runs tokens).map (List.map (Token.rename ρ)) := by
  induction tokens using inductionOnRuns with
  | tail tokens hrun => rw [runs_of_isRun hrun, runs_of_isRun (isRun_rename hrun), List.map_nil]
  | run run rest hrun ih =>
      rw [map_rename_append, runs_append hrun, runs_append (isRun_rename hrun), ih, List.map_cons]

theorem remainder_rename (tokens : List Token) :
    remainder (tokens.map (Token.rename ρ)) = (remainder tokens).map (Token.rename ρ) := by
  induction tokens using inductionOnRuns with
  | tail tokens hrun => rw [remainder_of_isRun hrun, remainder_of_isRun (isRun_rename hrun)]
  | run run rest hrun ih =>
      rw [map_rename_append, remainder_append hrun, remainder_append (isRun_rename hrun), ih]

/-! ## Programs -/

/-- Both token lists are programs that correspond, or both are refused and one error
is the other one renamed. -/
theorem ofTokens_rename_cases (ρ : Renaming) (limit : Nat) (tokens : List Token) :
    (∃ program renamed, ofTokens limit tokens = .ok program ∧
        ofTokens limit (tokens.map (Token.rename ρ)) = .ok renamed ∧
        Corresponds ρ (Program.rename ρ) program renamed) ∨
      ∃ error, ofTokens limit tokens = .error error ∧
        ofTokens limit (tokens.map (Token.rename ρ)) = .error (error.rename ρ) := by
  induction tokens using inductionOnRuns with
  | tail tokens hrun =>
      rw [ofTokens_tail limit hrun, ofTokens_tail limit (isRun_rename hrun)]
      cases tokens with
      | nil => exact .inl ⟨[], [], rfl, rfl, fun _ => rfl⟩
      | cons token rest => exact .inr ⟨.unterminated (token :: rest), rfl, rfl⟩
  | run run rest hrun ih =>
      rw [map_rename_append, ofTokens_run limit hrun, ofTokens_run limit (isRun_rename hrun)]
      have hfollows := Statement.follows_read ρ limit run
      cases hread : Statement.read limit run with
      | error fault =>
          rw [hfollows.eq_error hread]
          exact .inr ⟨.statement run fault, rfl, rfl⟩
      | ok statement =>
          obtain ⟨statement', hread', hstatement⟩ := hfollows.eq_ok hread
          rw [hread']
          rcases ih with ⟨program, renamed, hprogram, hrenamed, hrest⟩ | ⟨error, herror, hrenamed⟩
          · rw [hprogram, hrenamed]
            refine .inl ⟨statement :: program, statement' :: renamed, rfl, rfl, fun hname => ?_⟩
            rw [hstatement hname, hrest hname]
            rfl
          · rw [herror, hrenamed]
            exact .inr ⟨error, rfl, rfl⟩

theorem parses_rename {limit : Nat} {tokens : List Token} :
    Parses limit (tokens.map (Token.rename ρ)) ↔ Parses limit tokens := by
  rcases ofTokens_rename_cases ρ limit tokens with
    ⟨program, renamed, hprogram, hrenamed, -⟩ | ⟨error, herror, hrenamed⟩
  · exact iff_of_true ⟨renamed, hrenamed⟩ ⟨program, hprogram⟩
  · exact iff_of_false (not_parses_of_error hrenamed) (not_parses_of_error herror)

theorem parses_run_rename {limit : Nat} {run : List Token} :
    Parses limit (run.map (Token.rename ρ) ++ [.mark .semicolon]) ↔
      Parses limit (run ++ [.mark .semicolon]) := by
  have hwhole : Parses limit ((run ++ [Token.mark .semicolon]).map (Token.rename ρ)) ↔
      Parses limit (run ++ [.mark .semicolon]) := parses_rename
  rwa [map_rename_append, List.map_nil] at hwhole

/-- The first refused run stays at its position. -/
theorem FirstRefused.rename {limit position : Nat} {tokens run : List Token}
    (hfirst : FirstRefused limit tokens position run) :
    FirstRefused limit (tokens.map (Token.rename ρ)) position (run.map (Token.rename ρ)) := by
  have hparse : ∀ {parts : List (List Token)},
      (∀ earlier ∈ parts, Parses limit (earlier ++ [.mark .semicolon])) →
        ∀ earlier ∈ parts.map (List.map (Token.rename ρ)),
          Parses limit (earlier ++ [.mark .semicolon]) := fun hparts =>
    List.forall_mem_map.mpr fun earlier hmem => parses_run_rename.mpr (hparts earlier hmem)
  cases hfirst with
  | @run _ before after hruns hbefore hrefused =>
      have hrenamed : runs (tokens.map (Token.rename ρ)) =
          before.map (List.map (Token.rename ρ)) ++ run.map (Token.rename ρ) ::
            after.map (List.map (Token.rename ρ)) := by
        rw [runs_rename, hruns, List.map_append, List.map_cons]
      have hfirst := FirstRefused.run hrenamed (hparse hbefore)
        (parses_run_rename.not.mpr hrefused)
      rwa [List.length_map] at hfirst
  | remainder hbefore hrefused =>
      have hall := hparse hbefore
      rw [← runs_rename] at hall
      have hlast := FirstRefused.remainder hall
        (by rwa [remainder_rename, parses_rename])
      rwa [remainder_rename, runs_rename, List.length_map] at hlast

/-- Names and literals are opaque to the reader.  With other names and literals the
tokens are a program exactly when they were one, and it is the same program with
these names and literals as long as different names stay different.  A refusal
stays the refusal of the same statement, and blames the same token. -/
theorem ofTokens_rename (ρ : Renaming) (limit : Nat) (tokens : List Token) :
    (Parses limit (tokens.map (Token.rename ρ)) ↔ Parses limit tokens) ∧
      (∀ (hname : Function.Injective ρ.name) (program : Program),
        ofTokens limit tokens = .ok program →
          ofTokens limit (tokens.map (Token.rename ρ)) = .ok (program.rename ρ hname)) ∧
      ∀ error, ofTokens limit tokens = .error error →
        ∃ position run, FirstRefused limit tokens position run ∧
          FirstRefused limit (tokens.map (Token.rename ρ)) position
            (run.map (Token.rename ρ)) ∧
          error.context? = some (Token.joinTexts run) ∧
          ∃ renamed, ofTokens limit (tokens.map (Token.rename ρ)) = .error renamed ∧
            renamed.token? = error.token?.map (Token.rename ρ) ∧
            renamed.context? = some (Token.joinTexts (run.map (Token.rename ρ))) := by
  refine ⟨parses_rename, fun hname program hread => ?_, fun error herror => ?_⟩
  · rcases ofTokens_rename_cases ρ limit tokens with
      ⟨other, renamed, hother, hrenamed, hprogram⟩ | ⟨error, herror, -⟩
    · obtain rfl := Except.ok.inj (hread.symm.trans hother)
      rw [hrenamed, hprogram hname]
    · rw [herror] at hread
      contradiction
  · obtain ⟨position, run, hfirst⟩ := exists_firstRefused (not_parses_of_error herror)
    rcases ofTokens_rename_cases ρ limit tokens with
      ⟨program, -, hprogram, -⟩ | ⟨other, hother, hrenamed⟩
    · rw [herror] at hprogram
      contradiction
    · obtain rfl := Except.error.inj (herror.symm.trans hother)
      have hcontext : error.context? = some (Token.joinTexts run) := by
        rcases hfirst.error_cases herror with ⟨-, rfl⟩ | ⟨fault, rfl, -⟩ <;> rfl
      have hcontext' : (error.rename ρ).context? =
          some (Token.joinTexts (run.map (Token.rename ρ))) := by
        rcases hfirst.error_cases herror with ⟨-, rfl⟩ | ⟨fault, rfl, -⟩ <;> rfl
      exact ⟨position, run, hfirst, hfirst.rename, hcontext, _, hrenamed,
        error.token?_rename ρ, hcontext'⟩

/-- The names of a nested program with a letter before each, and one numeral for all of its
literals.  A statement that is refused for a literal is refused for the renamed one. -/
theorem ofTokens_rename_nested :
    Function.Injective (fun name : String => "n" ++ name) ∧
      ofTokens 9 (tokenize "x : T = a -> \x7b k ( 1 , y ) : f ( p = 2 , q = p ) \x7d ;") =
        .ok [.assign ⟨"x", some (.simple "T"), .flow [.atom (.identifier "a"), .map
          [(.constructor "k" [.atom (.literal "1"), .atom (.identifier "y")],
            .config "f" (.ofList [("p", .literal "2"), ("q", .identifier "p")]))]]⟩] ∧
      ofTokens 9
          (tokenize "nx : nT = na -> \x7b nk ( 0 , ny ) : nf ( np = 0 , nq = np ) \x7d ;") =
        .ok [.assign ⟨"nx", some (.simple "nT"), .flow [.atom (.identifier "na"), .map
          [(.constructor "nk" [.atom (.literal "0"), .atom (.identifier "ny")],
            .config "nf" (.ofList [("np", .literal "0"), ("nq", .identifier "np")]))]]⟩] ∧
      ∃ error renamed, ofTokens 9 (tokenize "x = a ; y = f ( p 1 ) ;") = .error error ∧
        ofTokens 9 (tokenize "nx = na ; ny = nf ( np 0 ) ;") = .error renamed ∧
        error.token? = some (.literal "1") ∧ renamed.token? = some (.literal "0") := by
  have hinjective : Function.Injective fun name : String => "n" ++ name :=
    fun _ _ heq => (String.append_right_inj "n").mp heq
  have hread :
      ofTokens 9 (tokenize "x : T = a -> \x7b k ( 1 , y ) : f ( p = 2 , q = p ) \x7d ;") =
        .ok [.assign ⟨"x", some (.simple "T"), .flow [.atom (.identifier "a"), .map
          [(.constructor "k" [.atom (.literal "1"), .atom (.identifier "y")],
            .config "f" (.ofList [("p", .literal "2"), ("q", .identifier "p")]))]]⟩] := by
    decide +kernel
  have htokens :
      (tokenize "x : T = a -> \x7b k ( 1 , y ) : f ( p = 2 , q = p ) \x7d ;").map
          (Token.rename ⟨fun name => "n" ++ name, fun _ => "0"⟩) =
        tokenize "nx : nT = na -> \x7b nk ( 0 , ny ) : nf ( np = 0 , nq = np ) \x7d ;" := by
    decide +kernel
  have hrefused : ofTokens 9 (tokenize "x = a ; y = f ( p 1 ) ;") =
      .error (.statement (tokenize "y = f ( p 1 )")
        (.unexpected .propertyAssignment (.literal "1"))) := by
    decide +kernel
  have htokens' : (tokenize "x = a ; y = f ( p 1 ) ;").map
        (Token.rename ⟨fun name => "n" ++ name, fun _ => "0"⟩) =
      tokenize "nx = na ; ny = nf ( np 0 ) ;" := by
    decide +kernel
  have hrename := ofTokens_rename ⟨fun name => "n" ++ name, fun _ => "0"⟩ 9
  obtain ⟨-, hprogram, -⟩ := hrename
    (tokenize "x : T = a -> \x7b k ( 1 , y ) : f ( p = 2 , q = p ) \x7d ;")
  obtain ⟨-, -, herror⟩ := hrename (tokenize "x = a ; y = f ( p 1 ) ;")
  obtain ⟨_, _, -, -, -, renamed, hrenamed, htoken, -⟩ := herror _ hrefused
  refine ⟨hinjective, hread, ?_, _, renamed, hrefused, htokens' ▸ hrenamed, rfl, htoken⟩
  rw [← htokens, hprogram hinjective _ hread]
  rfl

end Program

end Dataflow
