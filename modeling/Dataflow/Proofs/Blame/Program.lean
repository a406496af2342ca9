import Dataflow.Proofs.Acceptance
import Dataflow.Proofs.Blame.Statement
import Mathlib.Order.Bounds.Basic

/-!
# The blamed token

A run is viable as long as it can be completed to one that is accepted.  The error
of a refused run blames the first token after which it is not viable any more, or
its last token when it is viable to the end.  Only an arrow with nothing after it
is blamed instead of the token behind it, where that ends the value of a map entry.
-/

namespace Dataflow

/-- Together with a semicolon the run is a program under some nesting limit. -/
def Accepted (run : List Token) : Prop :=
  IsRun run ∧ ∃ limit program, Program.ofTokens limit (run ++ [.mark .semicolon]) = .ok program

/-- The tokens are a prefix of an accepted run. -/
def Viable (tokens : List Token) : Prop :=
  Completable Accepted tokens

theorem accepted_iff {run : List Token} : Accepted run ↔ Statement.Phrase run := by
  constructor
  · rintro ⟨hrun, limit, program, hread⟩
    rw [Program.ofTokens_single limit hrun] at hread
    split at hread
    · contradiction
    · next statement hstatement =>
      exact ⟨statement, (Statement.read_eq_ok_iff.mp hstatement).1⟩
  · rintro ⟨statement, hderives⟩
    refine ⟨hderives.isRun, statement.depth + 1, [statement], ?_⟩
    rw [Program.ofTokens_single _ hderives.isRun, hderives.read_eq (Nat.lt_succ_self _)]

theorem viable_iff {tokens : List Token} :
    Viable tokens ↔ Completable Statement.Phrase tokens :=
  exists_congr fun _ => accepted_iff

/-- The message about a token that has to be another one ends in that token. -/
theorem Fault.Rejects.message_eq {fault : Fault} {token : Token} (hfault : fault.Rejects token)
    (last : String) :
    ∃ text, fault.message last = text ++ " but found [" ++ token.text ++ "]." := by
  cases hfault with
  | unexpected expected => exact ⟨"Expected " ++ expected.describe, rfl⟩
  | badPropertyValue =>
      let text := "Expected an identifier or literal as the value of a config property,"
      have hbracket : " but found [" = " but found " ++ "[" := by decide
      refine ⟨text, ?_⟩
      calc
        (Fault.badPropertyValue token).message last =
            (text ++ " but found ") ++ ("[" ++ token.text ++ "].") := rfl
        _ = text ++ " but found [" ++ token.text ++ "]." := by
          rw [hbracket]
          simp only [String.append_assoc]

/-- The prefix lengths at which the run is viable. -/
def viableLengths (run : List Token) : Set Nat :=
  {length | length ≤ run.length ∧ Viable (run.take length)}

/-- Nothing beyond a prefix is viable that no continuation completes. -/
theorem isGreatest_viableLengths {before after : List Token} {token : Token}
    (hopen : Viable before) (hrefused : ∀ others, ¬ Accepted (before ++ token :: others)) :
    IsGreatest (viableLengths (before ++ token :: after)) before.length := by
  constructor
  · refine ⟨by simp, ?_⟩
    rwa [List.take_left]
  · rintro length ⟨-, hviable⟩
    by_contra hlt
    obtain ⟨more, rfl⟩ := Nat.exists_eq_add_of_lt (Nat.lt_of_not_le hlt)
    obtain ⟨others, haccepted⟩ := hviable
    rw [Nat.add_assoc, List.take_length_add_append, List.take_succ_cons, List.append_assoc,
      List.cons_append] at haccepted
    exact hrefused _ haccepted

namespace Statement

theorem ne_nil_of_read {limit : Nat} {run : List Token} {fault : Fault}
    (herror : read limit run = .error fault) (hdeep : ¬ fault.IsTooDeep) : run ≠ [] := by
  rintro rfl
  cases limit with
  | zero => exact absurd herror (tooDeep_ne_error hdeep)
  | succ room => contradiction

end Statement

theorem Fault.AtEnd.token?_eq {run : List Token} {fault : Fault} (hfault : fault.AtEnd run) :
    (SyntaxError.statement run fault).token? = run.getLast? := by
  cases hfault with
  | missing => rfl
  | configEnded expected => rfl
  | danglingArrow hlast => exact hlast.symm

theorem Fault.AtEnd.cause {run : List Token} {fault : Fault} (hfault : fault.AtEnd run) :
    fault = .missing ∨ (∃ expected, fault = .configEnded expected) ∨
      ∃ arrow, fault = .danglingArrow arrow := by
  cases hfault with
  | missing => exact .inl rfl
  | configEnded expected => exact .inr (.inl ⟨expected, rfl⟩)
  | danglingArrow hlast => exact .inr (.inr ⟨_, rfl⟩)

theorem Fault.Rejects.token?_eq {run : List Token} {fault : Fault} {token : Token}
    (hfault : fault.Rejects token) : (SyntaxError.statement run fault).token? = some token := by
  cases hfault <;> rfl

/-- The error of a refused run blames the first token that makes it impossible to
complete the run, the last token when there is none, or the arrow before it. -/
theorem exists_blamed_token {limit : Nat} {run : List Token} {error : SyntaxError}
    (hrun : IsRun run)
    (herror : Program.ofTokens limit (run ++ [.mark .semicolon]) = .error error)
    (hdepth : ∀ levels found, error ≠ .statement run (.tooDeep levels found))
    (himport : run.head? ≠ some (.mark .importWord) ∨ run.length = 4 ∨ run.length = 6) :
    ∃ fault length, error = .statement run fault ∧ IsGreatest (viableLengths run) length ∧
      (∀ hlt : length < run.length,
        (error.token? = some run[length] ∧ fault.Rejects run[length] ∧
            ∃ text, error.message = text ++ " but found [" ++ run[length].text ++ "].") ∨
          (fault = .danglingArrow (.mark .arrow) ∧ 0 < length ∧
            run[length - 1]? = some (.mark .arrow) ∧ error.token? = run[length - 1]? ∧
            (run[length] = .mark .comma ∨ run[length] = .mark .closeBrace) ∧
            ∀ value : Atom, Viable (run.take (length - 1) ++ [value.token, run[length]]))) ∧
      (length = run.length → run ≠ [] ∧ error.token? = run.getLast? ∧
        (fault = .missing ∨ (∃ expected, fault = .configEnded expected) ∨
          ∃ arrow, fault = .danglingArrow arrow)) := by
  rw [Program.ofTokens_single limit hrun] at herror
  split at herror
  · next fault hread =>
    obtain rfl := Except.error.inj herror
    have hdeep : ¬ fault.IsTooDeep := by
      intro hdeep
      cases fault with
      | tooDeep levels found => exact hdepth levels found rfl
      | _ => exact hdeep
    have hrefused : ∀ {others : List Token}, ¬ Statement.Phrase others → ¬ Accepted others :=
      fun hothers haccepted => hothers (accepted_iff.mp haccepted)
    cases Statement.located_of_read hread hdeep himport with
    | ended hfault hopen =>
        refine ⟨fault, run.length, rfl, ⟨⟨Nat.le_refl _, ?_⟩, fun _ hlength => hlength.1⟩,
          fun hlt => absurd hlt (Nat.lt_irrefl _), fun _ => ?_⟩
        · rw [List.take_length]
          exact viable_iff.mpr hopen
        · exact ⟨Statement.ne_nil_of_read hread hdeep, hfault.token?_eq, hfault.cause⟩
    | rejected before token after htokens hfault hopen hothers =>
        subst htokens
        refine ⟨fault, before.length, rfl, isGreatest_viableLengths (viable_iff.mpr hopen)
          fun others => hrefused (hothers others), fun hlt => .inl ?_, fun hlength => ?_⟩
        · rw [List.getElem_append_right (Nat.le_refl _)]
          simp only [Nat.sub_self, List.getElem_cons_zero]
          exact ⟨hfault.token?_eq, hfault, hfault.message_eq _⟩
        · simp at hlength
    | dangling before token after htokens hfault htoken hopen hstep hothers =>
        subst htokens hfault
        rw [List.append_cons] at hread ⊢
        have hlength : (before ++ [Token.mark .arrow]).length = before.length + 1 :=
          List.length_append
        refine ⟨_, before.length + 1, rfl, ?_, fun hlt => .inr ?_, fun hall => ?_⟩
        · rw [← hlength]
          apply isGreatest_viableLengths (viable_iff.mpr hopen)
          intro others
          rw [← List.append_cons]
          exact hrefused (hothers others)
        · have htake : (before ++ [Token.mark .arrow] ++ token :: after).take before.length =
              before := by simp
          have harrow : (before ++ [Token.mark .arrow] ++ token :: after)[before.length]? =
              some (.mark .arrow) := by simp
          have hnext : (before ++ [Token.mark .arrow] ++ token :: after)[before.length + 1] =
              token := by simp
          rw [Nat.add_sub_cancel, htake, harrow, hnext]
          exact ⟨rfl, Nat.succ_pos _, rfl, rfl, Token.endsEntry_iff.mp htoken,
            fun value => viable_iff.mpr (hstep value)⟩
        · simp at hall
  · contradiction

/-- Where a type is needed an equals sign is blamed, and all before it is
viable. -/
theorem isGreatest_viableLengths_missing_type :
    IsGreatest
      (viableLengths [.identifier "x", .mark .colon, .mark .equals]) 2 := by
  have herror : Program.ofTokens 9
      ([.identifier "x", .mark .colon, .mark .equals] ++ [.mark .semicolon]) =
      .error (.statement [.identifier "x", .mark .colon, .mark .equals]
        (.unexpected .typeName (.mark .equals))) := rfl
  obtain ⟨fault, length, hfault, hgreatest, hinside, hend⟩ :=
    exists_blamed_token (by simp) herror nofun (.inl (by simp))
  obtain ⟨-, rfl⟩ := SyntaxError.statement.inj hfault
  have hle : length ≤ 3 := hgreatest.1.1
  rcases Nat.lt_or_eq_of_le hle with hlt | rfl
  · rcases hinside hlt with ⟨htoken, -⟩ | ⟨hdangling, -⟩
    · match length, hlt with
      | 0, _ => simp [SyntaxError.token?, Fault.found?] at htoken
      | 1, _ => simp [SyntaxError.token?, Fault.found?] at htoken
      | 2, _ => exact hgreatest
    · contradiction
  · obtain ⟨-, -, hmissing | ⟨expected, hconfig⟩ | ⟨arrow, harrow⟩⟩ := hend rfl
    · contradiction
    · contradiction
    · contradiction

end Dataflow
