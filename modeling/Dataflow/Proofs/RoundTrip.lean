import Dataflow.Program.DecidableEq
import Dataflow.Proofs.Acceptance
import Dataflow.Proofs.Spelling

/-!
# Round trip

The programs that come out of the parser are the well-formed ones.  Whatever is
parsed is well formed, because the tokens of a source are words of their kind and
the grammar never puts a flow into a flow.  And the canonical text of a
well-formed program is parsed to that program, because its tokens are lexed again
and derive it.
-/

namespace Dataflow

/-! ## What is derived from lexical tokens is well formed -/

theorem Atom.wellFormed_of_allLexical {value : Atom} {rest : List Token}
    (hlexical : AllLexical (value.token :: rest)) : value.WellFormed :=
  hlexical value.token List.mem_cons_self

theorem Settings.DerivesProperties.wellFormed {tokens : List Token}
    {properties : List (String × Atom)} (hderives : DerivesProperties tokens properties)
    (hlexical : AllLexical tokens) :
    ∀ property ∈ properties, WellFormedName property.1 ∧ property.2.WellFormed := by
  induction hderives with
  | one name value =>
      simp only [allLexical_cons] at hlexical
      exact List.forall_mem_singleton.mpr ⟨hlexical.1, hlexical.2.2.1⟩
  | cons name value hrest ih =>
      simp only [allLexical_cons] at hlexical
      obtain ⟨hname, -, hvalue, -, hrest⟩ := hlexical
      exact List.forall_mem_cons.mpr ⟨⟨hname, hvalue⟩, ih hrest⟩

theorem Settings.Derives.wellFormed {tokens : List Token} {settings : Settings}
    (hderives : Settings.Derives tokens settings) (hlexical : AllLexical tokens) :
    settings.WellFormed := by
  refine ⟨settings.nodup, ?_⟩
  cases hderives with
  | empty => nofun
  | collect hproperties hcollects =>
      intro entry hentry
      rw [collects_iff.mp hcollects] at hentry
      exact hproperties.wellFormed hlexical entry (mem_of_mem_entries_ofList hentry)

mutual

theorem Pattern.Derives.wellFormed {tokens : List Token} {pattern : Pattern} :
    Pattern.Derives tokens pattern → AllLexical tokens → pattern.WellFormed
  | .atom value, hlexical => Atom.wellFormed_of_allLexical hlexical
  | .constant name, hlexical => ⟨(allLexical_cons.mp hlexical).1, trivial⟩
  | .constructor name hargs, hlexical => by
      simp only [allLexical_cons, allLexical_append] at hlexical
      obtain ⟨hname, -, hinner, -⟩ := hlexical
      exact ⟨hname, hargs.wellFormed hinner⟩

theorem Pattern.DerivesArgs.wellFormed {tokens : List Token} {args : List Pattern} :
    Pattern.DerivesArgs tokens args → AllLexical tokens → Pattern.AllWellFormed args
  | .one harg, hlexical => ⟨harg.wellFormed hlexical, trivial⟩
  | .cons harg hrest, hlexical => by
      simp only [allLexical_cons, allLexical_append] at hlexical
      exact ⟨harg.wellFormed hlexical.1, hrest.wellFormed hlexical.2.2⟩

end

theorem Expr.DerivesStep.not_isFlow {tokens : List Token} {step : Expr}
    (hstep : Expr.DerivesStep tokens step) : ¬ step.IsFlow := by
  cases hstep <;> exact not_false

theorem Expr.DerivesSteps.not_isFlow {tokens : List Token} {steps : List Expr}
    (hsteps : Expr.DerivesSteps tokens steps) : ∀ step ∈ steps, ¬ step.IsFlow := by
  induction steps generalizing tokens with
  | nil => nofun
  | cons step steps ih =>
      cases hsteps with
      | cons arrows hstep hrest => exact List.forall_mem_cons.mpr ⟨hstep.not_isFlow, ih hrest⟩

mutual

theorem Expr.Derives.wellFormed {tokens : List Token} {expr : Expr} :
    Expr.Derives tokens expr → AllLexical tokens → expr.WellFormed
  | .step hsteps, hlexical => (hsteps.wellFormed hlexical).1
  | .flow hsteps, hlexical =>
      ⟨Nat.le_add_left 2 _, hsteps.not_isFlow, hsteps.wellFormed hlexical⟩

theorem Expr.DerivesSteps.wellFormed {tokens : List Token} {steps : List Expr} :
    Expr.DerivesSteps tokens steps → AllLexical tokens → Expr.AllWellFormed steps
  | .nil, _ => trivial
  | .cons arrows hstep hrest, hlexical => by
      simp only [allLexical_append] at hlexical
      exact ⟨hstep.wellFormed hlexical.2.1, hrest.wellFormed hlexical.2.2⟩

theorem Expr.DerivesStep.wellFormed {tokens : List Token} {step : Expr} :
    Expr.DerivesStep tokens step → AllLexical tokens → step.WellFormed
  | .atom value, hlexical => Atom.wellFormed_of_allLexical hlexical
  | .config name hsettings, hlexical => by
      simp only [allLexical_cons, allLexical_append] at hlexical
      obtain ⟨hname, -, hinner, -⟩ := hlexical
      exact ⟨hname, hsettings.wellFormed hinner⟩
  | .map hmap, hlexical => hmap.wellFormed hlexical

theorem Expr.DerivesMap.wellFormed {tokens : List Token} {entries : List (Pattern × Expr)} :
    Expr.DerivesMap tokens entries → AllLexical tokens → Expr.EntriesWellFormed entries
  | .empty, _ => trivial
  | .entries hentries, hlexical => by
      simp only [allLexical_cons, allLexical_append] at hlexical
      exact hentries.wellFormed hlexical.2.1

theorem Expr.DerivesEntries.wellFormed {tokens : List Token}
    {entries : List (Pattern × Expr)} :
    Expr.DerivesEntries tokens entries → AllLexical tokens → Expr.EntriesWellFormed entries
  | .one hkey hvalue, hlexical => by
      simp only [allLexical_cons, allLexical_append] at hlexical
      exact ⟨hkey.wellFormed hlexical.1, hvalue.wellFormed hlexical.2.2, trivial⟩
  | .cons hkey hvalue hrest, hlexical => by
      simp only [allLexical_cons, allLexical_append] at hlexical
      obtain ⟨hkeyTokens, -, hvalueTokens, -, hrestTokens⟩ := hlexical
      exact ⟨hkey.wellFormed hkeyTokens, hvalue.wellFormed hvalueTokens,
        hrest.wellFormed hrestTokens⟩

end

theorem Signature.Derives.wellFormed {tokens : List Token} {signature : Signature}
    (hderives : Signature.Derives tokens signature) (hlexical : AllLexical tokens) :
    signature.WellFormed := by
  cases hderives with
  | simple name => exact (allLexical_cons.mp hlexical).1
  | flow input output =>
      simp only [allLexical_cons] at hlexical
      exact ⟨hlexical.1, hlexical.2.2.1⟩

theorem Assignment.Derives.wellFormed {tokens : List Token} {assignment : Assignment}
    (hderives : Assignment.Derives tokens assignment) (hlexical : AllLexical tokens) :
    assignment.WellFormed := by
  cases hderives with
  | untyped name hvalue =>
      simp only [allLexical_cons] at hlexical
      exact ⟨hlexical.1, nofun, hvalue.wellFormed hlexical.2.2⟩
  | typed name htype hvalue =>
      simp only [allLexical_cons, allLexical_append] at hlexical
      obtain ⟨hname, -, htypeTokens, -, hvalueTokens⟩ := hlexical
      refine ⟨hname, ?_, hvalue.wellFormed hvalueTokens⟩
      intro signature hsignature
      rw [← Option.some.inj hsignature]
      exact htype.wellFormed htypeTokens

theorem Statement.Derives.wellFormed {tokens : List Token} {statement : Statement}
    (hderives : Statement.Derives tokens statement) (hlexical : AllLexical tokens) :
    statement.WellFormed := by
  cases hderives with
  | empty => trivial
  | importName name htype =>
      simp only [allLexical_cons] at hlexical
      exact ⟨hlexical.2.1, htype.wellFormed hlexical.2.2.2⟩
  | exportFlow hassignment => exact hassignment.wellFormed (allLexical_cons.mp hlexical).2
  | assign hassignment => exact hassignment.wellFormed hlexical

theorem Program.Derives.wellFormed {tokens : List Token} {program : Program}
    (hderives : Program.Derives tokens program) (hlexical : AllLexical tokens) :
    Program.WellFormed program := by
  induction hderives with
  | nil => nofun
  | cons hrun hrest ih =>
      simp only [allLexical_cons, allLexical_append] at hlexical
      exact List.forall_mem_cons.mpr ⟨hrun.wellFormed hlexical.1, ih hlexical.2.2⟩

/-! ## Parsing and spelling -/

namespace Program

theorem wellFormed_of_parse {limits : Limits} {source : String} {program : Program}
    (hparse : parse limits source = .ok program) : WellFormed program := by
  obtain ⟨-, hread⟩ := parse_eq_ok_iff.mp hparse
  obtain ⟨hderives, -⟩ := ofTokens_eq_ok_iff_derives.mp hread
  exact hderives.wellFormed (allLexical_tokenize source)

/-- The parser gives well-formed programs only, and gives every one of them for
its own spelling, unless a limit is too small. -/
theorem parse_round_trip :
    (∀ (limits : Limits) (source : String) (program : Program),
        parse limits source = .ok program → WellFormed program) ∧
      ∀ program : Program, WellFormed program →
        (∀ statement ∈ program, statement.depth ≤ (tokens program).length + 2) ∧
          ∀ limits : Limits, parse limits (spell program) = .ok program ↔
            (spell program).utf8ByteSize ≤ limits.inputSize ∧
              (tokens program).length ≤ limits.tokenCount ∧
              ∀ statement ∈ program, statement.depth < limits.nestingDepth := by
  constructor
  · intro limits source program hparse
    exact wellFormed_of_parse hparse
  · intro program hwell
    have hderives := derives_tokens hwell
    refine ⟨hderives.depth_le_length, fun limits => ?_⟩
    have htokenize : tokenize (spell program) = tokens program :=
      tokenize_joinTexts (allLexical_tokens hwell)
    rw [parse_eq_ok_iff, htokenize, ofTokens_eq_ok_iff_derives, and_assoc]
    exact and_congr_right fun _ => and_congr_right fun _ => and_iff_right hderives

/-- A nested program in a loose layout, without an arrow between its steps, and the limits that
its canonical text needs. -/
theorem parse_round_trip_nested :
    ∃ program : Program,
      parse {} "x : T =\n a \x7b k ( 1 , y ) : f ( p = 2 ) ,\n z : \x7b \x7d \x7d ;" =
          .ok program ∧
        WellFormed program ∧
        spell program = "x : T = a -> \x7b k ( 1 , y ) : f ( p = 2 ) , z : \x7b \x7d \x7d ;" ∧
        parse ⟨54, 27, 6⟩ (spell program) = .ok program ∧
        parse ⟨53, 27, 6⟩ (spell program) ≠ .ok program ∧
        parse ⟨54, 26, 6⟩ (spell program) ≠ .ok program ∧
        parse ⟨54, 27, 5⟩ (spell program) ≠ .ok program := by
  have hparse :
      parse {} "x : T =\n a \x7b k ( 1 , y ) : f ( p = 2 ) ,\n z : \x7b \x7d \x7d ;" =
        .ok [.assign ⟨"x", some (.simple "T"), .flow [.atom (.identifier "a"), .map
          [(.constructor "k" [.atom (.literal "1"), .atom (.identifier "y")],
              .config "f" (.ofList [("p", .literal "2")])),
            (.atom (.identifier "z"), .map [])]]⟩] := by
    decide +kernel
  obtain ⟨hwellFormed, hround⟩ := parse_round_trip
  have hwell := hwellFormed _ _ _ hparse
  obtain ⟨-, hlimits⟩ := hround _ hwell
  refine ⟨_, hparse, hwell, by decide +kernel, (hlimits _).mpr ?_, (hlimits _).not.mpr ?_,
    (hlimits _).not.mpr ?_, (hlimits _).not.mpr ?_⟩ <;> decide +kernel

end Program

end Dataflow
