import Dataflow.Proofs.Cursor.Statement
import Dataflow.Proofs.Reading.Program

/-!
# Programs with a cursor

The parser with a cursor ends for every token list and every limit, and comes to the same
outcome as the reader of programs.  What each call on the way keeps to is told by the record
of calls that it ends with.
-/

namespace Dataflow

/-- The state before the first statement. -/
def Scanner.initial : Scanner := ⟨⟨0, 0, 0⟩, []⟩

theorem Scanner.clean_initial : Scanner.initial.Clean := List.forall_mem_nil _

theorem findIdx?_semicolon_of_isRun {run : List Token} (hrun : IsRun run) :
    run.findIdx? (fun token => token.role = .semicolon) = none := by
  rw [List.findIdx?_eq_none_iff]
  rintro token hmem
  refine decide_eq_false fun hrole => hrun ?_
  rwa [← Token.role_eq_iff (m := .semicolon).mp hrole]

theorem findIdx?_semicolon_append {run : List Token} (hrun : IsRun run) (rest : List Token) :
    (run ++ .mark .semicolon :: rest).findIdx? (fun token => token.role = .semicolon) =
      some run.length := by
  rw [List.findIdx?_append, findIdx?_semicolon_of_isRun hrun, List.findIdx?_cons,
    if_pos (by decide)]
  simp

/-- The call has read the statement, and nothing but the statement, from the tokens it was made
on. -/
def Call.Reads (limit : Nat) (tokens : List Token) (call : Call) (statement : Statement) : Prop :=
  call.method = .statement ∧ call.answer = .value ∧ call.before.current = call.before.start ∧
    Statement.read limit (call.before.window tokens) = .ok statement

namespace Scan

variable {limit : Nat} {tokens : List Token}

/-- From this state the scan ends with `result` after calls that are sound and recorded after
those that were.  If it has a value, then none of its calls has failed, and `made` tells more about
the state it ends in. -/
def Ends {α : Type} (limit : Nat) (tokens : List Token) (scan : Scan SyntaxError α)
    (scanner : Scanner) (result : Except SyntaxError α) (made : α → Scanner → Prop) : Prop :=
  ∃ after, scan scanner = some (result, after) ∧ scanner.calls <:+ after.calls ∧
    (∀ call ∈ after.calls, call.Sound limit tokens) ∧
    ∀ value, result = .ok value → (scanner.Clean → after.Clean) ∧ made value after

section Ends

variable {α β : Type} {scan other : Scan SyntaxError α} {next : α → Scan SyntaxError β}
variable {scanner after : Scanner} {error : SyntaxError} {value : α}
variable {result : Except SyntaxError α} {later : Except SyntaxError β}
variable {made made' : α → Scanner → Prop} {finished : β → Scanner → Prop}

theorem Ends.of_eq (heq : scan scanner = other scanner)
    (hother : Ends limit tokens other scanner result made) :
    Ends limit tokens scan scanner result made := by
  rwa [Ends, heq]

theorem Ends.of_error (hscan : scan scanner = some (.error error, after))
    (hcalls : scanner.calls <:+ after.calls)
    (hsound : ∀ call ∈ after.calls, call.Sound limit tokens) :
    Ends limit tokens scan scanner (.error error) made :=
  ⟨after, hscan, hcalls, hsound, nofun⟩

theorem Ends.of_ok (hscan : scan scanner = some (.ok value, after))
    (hcalls : scanner.calls <:+ after.calls)
    (hsound : ∀ call ∈ after.calls, call.Sound limit tokens)
    (hclean : scanner.Clean → after.Clean) (hmade : made value after) :
    Ends limit tokens scan scanner (.ok value) made :=
  ⟨after, hscan, hcalls, hsound, fun _ hvalue => Except.ok.inj hvalue ▸ ⟨hclean, hmade⟩⟩

theorem Ends.mono (hscan : Ends limit tokens scan scanner result made)
    (hmade : ∀ value after, scanner.calls <:+ after.calls → made value after →
      made' value after) :
    Ends limit tokens scan scanner result made' := by
  obtain ⟨after, hscan, hcalls, hsound, hvalue⟩ := hscan
  exact ⟨after, hscan, hcalls, hsound, fun value hresult =>
    ⟨(hvalue value hresult).1, hmade value after hcalls (hvalue value hresult).2⟩⟩

theorem Ends.bind_error (hscan : Ends limit tokens scan scanner (.error error) made) :
    Ends limit tokens (scan >>= next) scanner (.error error) finished := by
  obtain ⟨after, hscan, hcalls, hsound, -⟩ := hscan
  exact .of_error (bind_eq_of_error hscan next) hcalls hsound

theorem Ends.bind_ok (hscan : Ends limit tokens scan scanner (.ok value) made)
    (hnext : ∀ after : Scanner, (∀ call ∈ after.calls, call.Sound limit tokens) →
      made value after → Ends limit tokens (next value) after later finished) :
    Ends limit tokens (scan >>= next) scanner later finished := by
  obtain ⟨middle, hscan, hfirst, hmiddle, hvalue⟩ := hscan
  obtain ⟨hclean, hmade⟩ := hvalue value rfl
  obtain ⟨after, hnext, hsecond, hafter, hlater⟩ := hnext middle hmiddle hmade
  exact ⟨after, (bind_eq_of_ok hscan next).trans hnext, hfirst.trans hsecond, hafter,
    fun last hresult => ⟨(hlater last hresult).1 ∘ hclean, (hlater last hresult).2⟩⟩

end Ends

section Rounds

variable {scanner : Scanner} {statements : List Statement}

theorem statementRound_of_le (hend : tokens.length ≤ scanner.cursor.current) :
    statementRound tokens limit statements scanner =
      some (.ok (.done statements.reverse), scanner) := by
  rw [statementRound, bind_eq_of_ok (get_eq scanner),
    if_neg (Nat.not_lt_of_le hend)]
  rfl

theorem statementRound_of_none (hlt : scanner.cursor.current < tokens.length)
    (hfind : (tokens.drop scanner.cursor.current).findIdx?
      (fun token => token.role = .semicolon) = none) :
    statementRound tokens limit statements scanner =
      some (.error (.unterminated (tokens.drop scanner.cursor.current)), scanner) := by
  rw [statementRound, bind_eq_of_ok (get_eq scanner), if_pos hlt, hfind]
  rfl

theorem statementRound_of_some {offset : Nat} (hlt : scanner.cursor.current < tokens.length)
    (hfind : (tokens.drop scanner.cursor.current).findIdx?
      (fun token => token.role = .semicolon) = some offset) :
    statementRound tokens limit statements scanner =
      (statementFrom tokens limit
        ⟨scanner.cursor.current, scanner.cursor.current, scanner.cursor.current + offset⟩ >>=
          fun statement => do
            modify fun after => after.moveTo (scanner.cursor.current + offset + 1)
            return .again (statement :: statements)) scanner := by
  rw [statementRound, bind_eq_of_ok (get_eq scanner), if_pos hlt, hfind]

theorem adapt_eq {α : Type} {scan : Scan Fault α} {outcome : Except Fault α} {after : Scanner}
    (hscan : scan scanner = some (outcome, after)) (f : Fault → SyntaxError) :
    scan.adapt f scanner = some (outcome.mapError f, after) := by
  change (scan scanner).bind _ = _
  rw [hscan]
  rfl

/-- Where the tokens go on with a run and its semicolon, the run is a statement to be read, and
the position after the semicolon is that of the rest. -/
theorem statement_of_drop_eq {position : Nat} {run rest : List Token}
    (hdrop : tokens.drop position = run ++ .mark .semicolon :: rest) :
    Cursor.Within ⟨position, position, position + run.length⟩ tokens ∧
      Cursor.window ⟨position, position, position + run.length⟩ tokens = run ∧
        tokens.drop (position + run.length + 1) = rest := by
  have hsemicolon : tokens[position + run.length]? = some (.mark .semicolon) := by
    rw [← List.getElem?_drop, hdrop, List.getElem?_append_right (Nat.le_refl _), Nat.sub_self]
    rfl
  refine ⟨⟨Nat.le_refl _, Nat.le_add_right _ _, by rw [hsemicolon]; rfl⟩, ?_, ?_⟩
  · rw [Cursor.window, List.drop_take, hdrop, Nat.add_sub_cancel_left, List.take_left]
  · rw [Nat.add_assoc, ← List.drop_drop, hdrop, List.drop_append, List.drop_of_length_le (by simp),
      Nat.add_sub_cancel_left]
    rfl

/-- A statement from its start ends as the reader of statements says about its tokens. -/
theorem ends_statementFrom {cursor : Cursor} (hwithin : cursor.Within tokens)
    (hstart : cursor.current = cursor.start)
    (hsound : ∀ call ∈ scanner.calls, call.Sound limit tokens) :
    Ends limit tokens (statementFrom tokens limit cursor) scanner
      ((Statement.read limit (cursor.window tokens)).mapError
        (.statement (cursor.window tokens)))
      fun statement after => ∃ call ∈ after.calls, call.Reads limit tokens statement := by
  have hrest : cursor.rest tokens = cursor.window tokens := by
    rw [Cursor.rest, hstart, Cursor.window]
  have hsees : Scanner.Sees limit tokens { scanner with cursor } (cursor.window tokens) :=
    ⟨hwithin, hrest, hsound⟩
  have hyields := follows_statement (Nat.zero_le limit) hsees
  rw [whole, Statement.readAt_zero] at hyields
  have hstep := bind_eq_of_ok (modify_eq (fun scanner => { scanner with cursor }) scanner) fun _ =>
    (statement tokens limit 0).adapt (SyntaxError.statement (cursor.window tokens))
  cases hread : Statement.read limit (cursor.window tokens) with
  | error fault =>
      rw [hread] at hyields
      obtain ⟨after, rest, hscan, hleads, hafter⟩ := hyields
      exact .of_error (hstep.trans (adapt_eq hscan _)) hleads.calls hafter.sound
  | ok statement =>
      rw [hread] at hyields
      obtain ⟨after, hscan, hleads, hafter, hclean⟩ := hyields
      obtain ⟨call, hmem, hmethod, hbefore, -, hanswer⟩ := exists_call_of_record hscan
      refine .of_ok (hstep.trans (adapt_eq hscan _)) hleads.calls hafter.sound hclean
        ⟨call, hmem, hmethod, hanswer, ?_, ?_⟩
      · rw [hbefore]
        exact hstart
      · rw [hbefore]
        exact hread

/-- A round over a run and its semicolon ends as the reader of statements says about the run, and
leaves the cursor behind the semicolon. -/
theorem ends_statementRound {run rest : List Token} (hrun : IsRun run)
    (hdrop : tokens.drop scanner.cursor.current = run ++ .mark .semicolon :: rest)
    (hsound : ∀ call ∈ scanner.calls, call.Sound limit tokens) :
    Ends limit tokens (statementRound tokens limit statements) scanner
      (((Statement.read limit run).mapError (.statement run)).map
        fun statement => .again (statement :: statements))
      fun ended after => leftOf tokens after < leftOf tokens scanner ∧
        tokens.drop after.cursor.current = rest ∧
        ∀ statement, ended = .again (statement :: statements) →
          ∃ call ∈ after.calls, call.Reads limit tokens statement := by
  obtain ⟨hwithin, hwindow, hrest⟩ := statement_of_drop_eq hdrop
  have hlt : scanner.cursor.current < tokens.length :=
    Nat.lt_of_le_of_lt (Nat.le_add_right _ _) hwithin.stop_lt
  have hfind := findIdx?_semicolon_append hrun rest
  rw [← hdrop] at hfind
  have hstatement := ends_statementFrom hwithin rfl hsound
  rw [hwindow] at hstatement
  refine .of_eq (statementRound_of_some hlt hfind) ?_
  cases hread : Statement.read limit run with
  | error fault =>
      rw [hread] at hstatement
      exact hstatement.bind_error
  | ok statement =>
      rw [hread] at hstatement
      refine hstatement.bind_ok fun middle hmiddle hcall => ?_
      have hleft : leftOf tokens (middle.moveTo (scanner.cursor.current + run.length + 1)) <
          leftOf tokens scanner :=
        Nat.sub_lt_sub_left hlt (Nat.lt_succ_of_le (Nat.le_add_right _ _))
      refine .of_ok rfl List.suffix_rfl hmiddle id ⟨hleft, hrest, fun other hother => ?_⟩
      obtain ⟨rfl, -⟩ := List.cons.inj (Round.again.inj hother)
      exact hcall

/-- Behind the last semicolon there is a program that is over or one that has no end. -/
theorem ends_statementRound_tail {run : List Token} (hrun : IsRun run)
    (hdrop : tokens.drop scanner.cursor.current = run)
    (hsound : ∀ call ∈ scanner.calls, call.Sound limit tokens) :
    Ends limit tokens (statementRound tokens limit statements) scanner
      (if run = [] then .ok (.done statements.reverse) else .error (.unterminated run))
      fun _ _ => True := by
  by_cases hend : tokens.length ≤ scanner.cursor.current
  · rw [if_pos (hdrop.symm.trans (List.drop_eq_nil_of_le hend))]
    exact .of_ok (statementRound_of_le hend) List.suffix_rfl hsound id trivial
  · have hlt := Nat.lt_of_not_le hend
    have hnil : run ≠ [] := by
      rw [← hdrop]
      simpa using hlt
    have hfind := findIdx?_semicolon_of_isRun hrun
    rw [← hdrop] at hfind
    rw [if_neg hnil, ← hdrop]
    exact .of_error (statementRound_of_none hlt hfind) List.suffix_rfl hsound

/-- The loop over statements, by induction on the statements that are still to come. -/
theorem ends_loop_statementRound {suffix : List Token}
    (hdrop : tokens.drop scanner.cursor.current = suffix)
    (hsound : ∀ call ∈ scanner.calls, call.Sound limit tokens) :
    Ends limit tokens (loop (leftOf tokens) (statementRound tokens limit) statements) scanner
      ((Program.ofTokens limit suffix).map (statements.reverse ++ ·))
      fun program after => ∀ statement ∈ program,
        statement ∈ statements ∨ ∃ call ∈ after.calls, call.Reads limit tokens statement := by
  induction suffix using inductionOnRuns generalizing scanner statements with
  | tail run hrun =>
      have hround := @ends_statementRound_tail limit tokens scanner statements run hrun hdrop hsound
      refine .of_eq (loop_eq _ _ _ scanner) ?_
      rw [Program.ofTokens_tail limit hrun]
      by_cases hnil : run = []
      · rw [if_pos hnil] at hround ⊢
        refine hround.bind_ok fun after hafter _ => ?_
        rw [Except.map, List.append_nil]
        exact .of_ok rfl List.suffix_rfl hafter id fun statement hmem =>
          .inl (List.mem_reverse.mp hmem)
      · rw [if_neg hnil] at hround ⊢
        exact hround.bind_error
  | run run rest hrun ih =>
      have hround := @ends_statementRound limit tokens scanner statements run rest hrun hdrop hsound
      refine .of_eq (loop_eq _ _ _ scanner) ?_
      rw [Program.ofTokens_run limit hrun]
      cases hread : Statement.read limit run with
      | error fault =>
          rw [hread] at hround
          exact hround.bind_error
      | ok statement =>
          rw [hread] at hround
          refine hround.bind_ok fun middle hmiddle hmade => ?_
          obtain ⟨hleft, hrest, hread⟩ := hmade
          obtain ⟨call, hcall, hreads⟩ := hread statement rfl
          have hresult : (Except.map (statement :: ·) (Program.ofTokens limit rest)).map
              (statements.reverse ++ ·) = (Program.ofTokens limit rest).map
                ((statement :: statements).reverse ++ ·) := by
            cases Program.ofTokens limit rest with
            | error error => rfl
            | ok program => simp [Except.map]
          refine .of_eq (afterRound_again hleft _ _) ?_
          rw [hresult]
          refine (ih hrest hmiddle).mono fun program after hcalls hmade other hmem => ?_
          rcases hmade other hmem with hmem | hfound
          · rcases List.mem_cons.mp hmem with rfl | hmem
            · exact .inr ⟨call, hcalls.subset hcall, hreads⟩
            · exact .inl hmem
          · exact .inr hfound

end Rounds

theorem ends_program (limit : Nat) (tokens : List Token) :
    Ends limit tokens (program tokens limit) .initial (Program.ofTokens limit tokens)
      fun program after => ∀ statement ∈ program, ∃ call ∈ after.calls,
        call.Reads limit tokens statement := by
  have hloop := @ends_loop_statementRound limit tokens .initial [] tokens List.drop_zero
    (List.forall_mem_nil _)
  have hresult : (Program.ofTokens limit tokens).map ([].reverse ++ ·) =
      Program.ofTokens limit tokens := by
    cases Program.ofTokens limit tokens <;> rfl
  rw [hresult] at hloop
  exact hloop.mono fun program after _ hmade statement hmem =>
    (hmade statement hmem).resolve_left List.not_mem_nil

/-- Where a program is read, every call that nests was given a depth below the limit. -/
theorem exists_calls_of_ofTokens {program : Program}
    (hread : Program.ofTokens limit tokens = .ok program) :
    ∃ after, Scan.program tokens limit .initial = some (.ok program, after) ∧
      (∀ statement ∈ program, ∃ call ∈ after.calls, call.Reads limit tokens statement) ∧
      ∀ call ∈ after.calls, ∀ depth ∈ call.depth, depth < limit := by
  obtain ⟨after, hscan, -, hsound, hvalue⟩ := ends_program limit tokens
  obtain ⟨hclean, hmade⟩ := hvalue program hread
  rw [hread] at hscan
  exact ⟨after, hscan, hmade, fun call hmem =>
    (hsound call hmem).depth_lt (hclean Scanner.clean_initial call hmem)⟩

/-- The parser with a cursor ends for all tokens under all limits, with the outcome of the
reader of programs.  Whether or not it succeeds, every call keeps the cursor in the statement,
whose semicolon is among the tokens, so that what is left, what the statement has and its last
token are found by subtractions that do not go below zero.  No call moves the cursor back or is
given a depth above the limit; a component that is not there takes no token, a part that is
read takes at least one, and a statement that is read takes all.  Every statement that comes out
was read in this way from its first token to its last one. -/
theorem program_cursor (limit : Nat) (tokens : List Token) :
    ∃ after, program tokens limit .initial = some (Program.ofTokens limit tokens, after) ∧
      (∀ call ∈ after.calls,
        (∀ cursor ∈ [call.before, call.after],
          (cursor.start ≤ cursor.current ∧ cursor.current ≤ cursor.stop ∧
            cursor.stop < tokens.length) ∧
          tokens[cursor.stop]?.map Token.role = some .semicolon ∧
          (cursor.rest tokens).length = cursor.stop - cursor.current ∧
          (cursor.window tokens).length = cursor.stop - cursor.start ∧
          cursor.last? tokens = (cursor.window tokens).getLast?) ∧
        (call.after.start = call.before.start ∧ call.after.stop = call.before.stop ∧
          call.before.current ≤ call.after.current) ∧
        (∀ depth ∈ call.depth, depth ≤ limit ∧ (call.answer ≠ .fault → depth < limit)) ∧
        (call.method = .config → call.answer = .nothing → call.after = call.before) ∧
        (call.method ∈ [.key, .map, .flow, .config] → call.answer = .value →
          call.before.current < call.after.current) ∧
        (call.method = .statement → call.answer = .value →
          call.after.current = call.after.stop)) ∧
      ∀ program, Program.ofTokens limit tokens = .ok program → ∀ statement ∈ program,
        ∃ call ∈ after.calls, call.method = .statement ∧ call.answer = .value ∧
          call.before.current = call.before.start ∧
          Statement.read limit (call.before.window tokens) = .ok statement := by
  obtain ⟨after, hscan, -, hsound, hvalue⟩ := ends_program limit tokens
  refine ⟨after, hscan, fun call hmem => ?_, fun program hprogram => (hvalue program hprogram).2⟩
  have hcall := hsound call hmem
  have hwithin : ∀ cursor ∈ [call.before, call.after], cursor.Within tokens := by
    simpa using ⟨hcall.before_within, hcall.after_within⟩
  refine ⟨fun cursor hcursor => ?_, ⟨hcall.moves.start_eq, hcall.moves.stop_eq, hcall.moves.le⟩,
    fun depth hdepth =>
      ⟨hcall.depth_le depth hdepth, fun hanswer => hcall.depth_lt hanswer depth hdepth⟩,
    hcall.after_eq_before, hcall.before_lt_after, hcall.after_eq_stop⟩
  have hcursor := hwithin cursor hcursor
  exact ⟨⟨hcursor.start_le, hcursor.le_stop, hcursor.stop_lt⟩, hcursor.semicolon,
    hcursor.length_rest, hcursor.length_window, hcursor.last?_eq⟩

end Scan

end Dataflow
