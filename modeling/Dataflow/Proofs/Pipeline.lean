import Dataflow.Proofs.RoundTrip
import Dataflow.Proofs.Slots

/-!
# Pipelines

A value read after another one, with an arrow between them or without, is one flow:
the steps of the first value and then those of the second.  This holds for the value
of an assignment and for that of a map entry at any depth.  The steps of a flow are
no flows themselves, composition is associative, and a flow is as high as the highest
value in it, so that a limit on the nesting never limits the length of a flow.
-/

namespace Dataflow

namespace Expr

/-- The steps of a flow, or the one step that the expression is. -/
def parts : Expr → List Expr
  | .flow steps => steps
  | expr => [expr]

/-- The flow of the steps of two expressions. -/
def andThen (first second : Expr) : Expr :=
  .flow (first.parts ++ second.parts)

theorem parts_of_not_isFlow {expr : Expr} (hflow : ¬ expr.IsFlow) : expr.parts = [expr] := by
  cases expr with
  | flow steps => exact absurd trivial hflow
  | atom value | map entries | config name settings => rfl

@[simp]
theorem parts_andThen (first second : Expr) :
    (first.andThen second).parts = first.parts ++ second.parts := rfl

theorem andThen_assoc (first second third : Expr) :
    (first.andThen second).andThen third = first.andThen (second.andThen third) := by
  rw [andThen, parts_andThen, List.append_assoc]
  rfl

/-! ## Heights -/

theorem heightSteps_append (front rest : List Expr) :
    heightSteps (front ++ rest) = max (heightSteps front) (heightSteps rest) := by
  induction front with
  | nil => exact (Nat.zero_max _).symm
  | cons step front ih => rw [List.cons_append, heightSteps, ih, heightSteps, Nat.max_assoc]

theorem heightSteps_parts (expr : Expr) : heightSteps expr.parts = expr.height := by
  cases expr with
  | flow steps => rfl
  | atom value | map entries | config name settings => exact Nat.max_zero _

theorem height_andThen (first second : Expr) :
    (first.andThen second).height = max first.height second.height := by
  rw [andThen, height, heightSteps_append, heightSteps_parts, heightSteps_parts]

/-! ## Derivations -/

theorem DerivesSteps.append {front rest : List Token} {steps others : List Expr}
    (hfront : DerivesSteps front steps) (hrest : DerivesSteps rest others) :
    DerivesSteps (front ++ rest) (steps ++ others) := by
  induction steps generalizing front with
  | nil =>
      cases hfront with
      | nil => exact hrest
  | cons step steps ih =>
      cases hfront with
      | cons arrows hstep hsteps =>
          rw [List.append_assoc, List.append_assoc]
          exact .cons arrows hstep (ih hsteps)

/-- A derived value has a step, and its tokens derive its steps. -/
theorem Derives.exists_parts {tokens : List Token} {expr : Expr} (hderives : Derives tokens expr) :
    ∃ step steps, expr.parts = step :: steps ∧ DerivesSteps tokens (step :: steps) := by
  cases hderives with
  | step hsteps =>
      have hflow := hsteps.not_isFlow expr List.mem_cons_self
      exact ⟨expr, [], parts_of_not_isFlow hflow, hsteps⟩
  | flow hsteps => exact ⟨_, _, rfl, hsteps⟩

theorem Derives.parts_not_isFlow {tokens : List Token} {expr : Expr}
    (hderives : Derives tokens expr) : ∀ part ∈ expr.parts, ¬ part.IsFlow := by
  obtain ⟨step, steps, hparts, hsteps⟩ := hderives.exists_parts
  rw [hparts]
  exact hsteps.not_isFlow

section

variable {front rest : List Token} {first second : Expr}

theorem Derives.andThen_of_parts (hfirst : Derives front first) {step : Expr} {steps : List Expr}
    (hparts : second.parts = step :: steps) (hsteps : DerivesSteps rest (step :: steps)) :
    Derives (front ++ rest) (first.andThen second) := by
  obtain ⟨initial, others, hfirstParts, hothers⟩ := hfirst.exists_parts
  rw [Expr.andThen, hfirstParts, hparts]
  exact (hothers.append hsteps).derives_flow (by simp)

theorem Derives.andThen (hfirst : Derives front first) (hsecond : Derives rest second) :
    Derives (front ++ rest) (first.andThen second) := by
  obtain ⟨step, steps, hparts, hsteps⟩ := hsecond.exists_parts
  exact hfirst.andThen_of_parts hparts hsteps

theorem Derives.andThen_arrow (hfirst : Derives front first) (hsecond : Derives rest second) :
    Derives (front ++ .mark .arrow :: rest) (first.andThen second) := by
  obtain ⟨step, steps, hparts, hsteps⟩ := hsecond.exists_parts
  exact hfirst.andThen_of_parts hparts hsteps.arrow

end

end Expr

namespace Program

/-- An assignment of the tokens is read, and this is its value. -/
def ReadsValue (limit : Nat) (name : String) (tokens : List Token) (value : Expr) : Prop :=
  ofTokens limit (.identifier name :: .mark .equals :: (tokens ++ [.mark .semicolon])) =
    .ok [.assign ⟨name, none, value⟩]

theorem readsValue_iff {limit : Nat} {name : String} {tokens : List Token} {value : Expr} :
    ReadsValue limit name tokens value ↔ Expr.Derives tokens value ∧ value.height + 2 < limit :=
  ofTokens_assign_eq_ok_iff

/-- Two values that are read in the same place have the same slot, and so has any
value that is no higher than they are. -/
theorem ofTokens_fill {limit : Nat} {before after front rest : List Token}
    {separator : Token} {left right : Expr} {program program' : Program}
    (hleft : Expr.Derives front left) (hright : Expr.Derives rest right)
    (hseparator : separator.endsEntry = true)
    (hread : ofTokens limit (before ++ .mark .colon :: (front ++ separator :: after)) =
      .ok program)
    (hread' : ofTokens limit (before ++ .mark .colon :: (rest ++ separator :: after)) =
      .ok program') :
    ∃ slot : Place, slot.IsSlot ∧ program = slot.fill left ∧ program' = slot.fill right ∧
      ∀ {tokens : List Token} {value : Expr}, Expr.Derives tokens value →
        value.height ≤ max left.height right.height →
        ofTokens limit (before ++ .mark .colon :: (tokens ++ separator :: after)) =
          .ok (slot.fill value) := by
  obtain ⟨hderives, hdepth⟩ := ofTokens_eq_ok_iff_derives.mp hread
  obtain ⟨hderives', hdepth'⟩ := ofTokens_eq_ok_iff_derives.mp hread'
  obtain ⟨slot, hslot, rfl, htakes⟩ := hderives.exists_fill hleft hseparator
  obtain rfl := hderives'.unique (htakes hright)
  refine ⟨slot, hslot, rfl, rfl, fun hvalue hheight => ?_⟩
  have hfits := slot.depth_fill_lt hheight hdepth hdepth'
  exact ofTokens_eq_ok_iff_derives.mpr ⟨htakes hvalue, hfits⟩

/-- Two values that are read one after the other, with an arrow or without, are the
flow of their steps under the same limit, also as the value of any map entry. -/
theorem ofTokens_pipeline {limit : Nat} {name : String} {first second : List Token}
    {left right : Expr} (hfirst : ReadsValue limit name first left)
    (hsecond : ReadsValue limit name second right) :
    (ReadsValue limit name (first ++ .mark .arrow :: second) (left.andThen right) ∧
      ReadsValue limit name (first ++ second) (left.andThen right)) ∧
    (∀ (room : Nat) (before after : List Token) (separator : Token) (program program' : Program),
      separator = .mark .comma ∨ separator = .mark .closeBrace →
      ofTokens room (before ++ .mark .colon :: (first ++ separator :: after)) = .ok program →
      ofTokens room (before ++ .mark .colon :: (second ++ separator :: after)) = .ok program' →
      ∃ slot : Place, slot.IsSlot ∧ program = slot.fill left ∧ program' = slot.fill right ∧
        ofTokens room
            (before ++ .mark .colon ::
              ((first ++ .mark .arrow :: second) ++ separator :: after)) =
          .ok (slot.fill (left.andThen right)) ∧
        ofTokens room (before ++ .mark .colon :: ((first ++ second) ++ separator :: after)) =
          .ok (slot.fill (left.andThen right))) ∧
    (∀ part ∈ (left.andThen right).parts, ¬ part.IsFlow) ∧
    (left.andThen right).height = max left.height right.height ∧
    ∀ third : Expr, (left.andThen right).andThen third = left.andThen (right.andThen third) := by
  obtain ⟨hleft, hleftHeight⟩ := readsValue_iff.mp hfirst
  obtain ⟨hright, hrightHeight⟩ := readsValue_iff.mp hsecond
  have hheight := Expr.height_andThen left right
  have hfits : (left.andThen right).height + 2 < limit := by omega
  refine ⟨⟨?_, ?_⟩, ?_, ?_, hheight, Expr.andThen_assoc left right⟩
  · exact readsValue_iff.mpr ⟨hleft.andThen_arrow hright, hfits⟩
  · exact readsValue_iff.mpr ⟨hleft.andThen hright, hfits⟩
  · intro room before after separator program program' hseparator hread hread'
    have hends := Token.endsEntry_iff.mpr hseparator
    obtain ⟨slot, hslot, hprogram, hprogram', hfill⟩ :=
      ofTokens_fill hleft hright hends hread hread'
    have hle := Nat.le_of_eq hheight
    exact ⟨slot, hslot, hprogram, hprogram', hfill (hleft.andThen_arrow hright) hle,
      hfill (hleft.andThen hright) hle⟩
  · exact (hleft.andThen hright).parts_not_isFlow

/-- A flow and a name, as the value of an assignment and within a map that is itself
the value of an entry. -/
theorem ofTokens_pipeline_nested :
    ReadsValue 9 "n" (tokenize "a -> b")
        (.flow [.atom (.identifier "a"), .atom (.identifier "b")]) ∧
      ReadsValue 9 "n" (tokenize "c") (.atom (.identifier "c")) ∧
      ReadsValue 9 "n" (tokenize "a -> b" ++ .mark .arrow :: tokenize "c")
        (.flow [.atom (.identifier "a"), .atom (.identifier "b"), .atom (.identifier "c")]) ∧
      ∃ slot : Place, slot.IsSlot ∧
        ofTokens 9 (tokenize "n : T = d \x7b k ( 1 , 2 ) : \x7b y" ++ .mark .colon ::
            (tokenize "a -> b" ++ .mark .comma :: tokenize "z : e \x7d \x7d ;")) =
          .ok (slot.fill (.flow [.atom (.identifier "a"), .atom (.identifier "b")])) ∧
        ofTokens 9 (tokenize "n : T = d \x7b k ( 1 , 2 ) : \x7b y" ++ .mark .colon ::
            (tokenize "c" ++ .mark .comma :: tokenize "z : e \x7d \x7d ;")) =
          .ok (slot.fill (.atom (.identifier "c"))) ∧
        ofTokens 9 (tokenize "n : T = d \x7b k ( 1 , 2 ) : \x7b y" ++ .mark .colon ::
            ((tokenize "a -> b" ++ tokenize "c") ++ .mark .comma ::
              tokenize "z : e \x7d \x7d ;")) =
          .ok (slot.fill (.flow
            [.atom (.identifier "a"), .atom (.identifier "b"), .atom (.identifier "c")])) := by
  have hfirst : ReadsValue 9 "n" (tokenize "a -> b")
      (.flow [.atom (.identifier "a"), .atom (.identifier "b")]) := by
    rw [ReadsValue]
    decide +kernel
  have hsecond : ReadsValue 9 "n" (tokenize "c") (.atom (.identifier "c")) := by
    rw [ReadsValue]
    decide +kernel
  have hflow : ofTokens 9 (tokenize "n : T = d \x7b k ( 1 , 2 ) : \x7b y" ++ .mark .colon ::
        (tokenize "a -> b" ++ .mark .comma :: tokenize "z : e \x7d \x7d ;")) =
      .ok [.assign ⟨"n", some (.simple "T"), .flow [.atom (.identifier "d"),
        .map [(.constructor "k" [.atom (.literal "1"), .atom (.literal "2")],
          .map [(.atom (.identifier "y"),
              .flow [.atom (.identifier "a"), .atom (.identifier "b")]),
            (.atom (.identifier "z"), .atom (.identifier "e"))])]]⟩] := by
    decide +kernel
  have hname : ofTokens 9 (tokenize "n : T = d \x7b k ( 1 , 2 ) : \x7b y" ++ .mark .colon ::
        (tokenize "c" ++ .mark .comma :: tokenize "z : e \x7d \x7d ;")) =
      .ok [.assign ⟨"n", some (.simple "T"), .flow [.atom (.identifier "d"),
        .map [(.constructor "k" [.atom (.literal "1"), .atom (.literal "2")],
          .map [(.atom (.identifier "y"), .atom (.identifier "c")),
            (.atom (.identifier "z"), .atom (.identifier "e"))])]]⟩] := by
    decide +kernel
  obtain ⟨⟨harrow, -⟩, hentries, -⟩ := ofTokens_pipeline hfirst hsecond
  obtain ⟨slot, hslot, hprogram, hprogram', -, hboth⟩ := hentries 9 _ _ _ _ _ (.inl rfl) hflow hname
  rw [hprogram] at hflow
  rw [hprogram'] at hname
  exact ⟨hfirst, hsecond, harrow, slot, hslot, hflow, hname, hboth⟩

end Program

end Dataflow
