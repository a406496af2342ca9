import Dataflow.Proofs.Components.Reading

/-!
# Components of programs

The components of a program are those that its tokens spell.  When the properties of
a component are spelled anew in its tokens, the program is read again under the same
limit, with the settings that these properties give in the same place, and with all
else as it was.
-/

namespace Dataflow

/-- The tokens of a component with these properties, in this order. -/
def componentTokens (name : String) (properties : List (String × Atom)) : List Token :=
  .identifier name :: .mark .openParen ::
    (Settings.propertiesTokens properties ++ [.mark .closeParen])

/-- No properties are spelled by no tokens, and others by those of each in turn. -/
theorem Settings.derives_ofList (properties : List (String × Atom)) :
    Derives (propertiesTokens properties) (ofList properties) := by
  cases properties with
  | nil => exact .empty
  | cons property properties =>
      exact .collect (derivesProperties_tokens property properties) (collects_ofList _)

theorem Settings.Derives.unique {tokens : List Token} {left right : Settings}
    (hleft : Derives tokens left) (hright : Derives tokens right) : left = right := by
  have hread := hleft.read_eq []
  rw [hright.read_eq []] at hread
  exact (Prod.mk.inj (Except.ok.inj hread)).1.symm

theorem Settings.Derives.exists_properties {tokens : List Token} {settings : Settings}
    (hderives : Derives tokens settings) :
    ∃ properties, tokens = propertiesTokens properties ∧ settings = ofList properties := by
  cases hderives with
  | empty => exact ⟨[], rfl, rfl⟩
  | collect hproperties hcollects =>
      exact ⟨_, hproperties.eq_tokens, collects_iff.mp hcollects⟩

theorem Settings.propertiesTokens_cons (property : String × Atom)
    (properties : List (String × Atom)) :
    ∃ rest, propertiesTokens (property :: properties) =
        .identifier property.1 :: .mark .equals :: rest ∧ .mark .closeParen ∉ rest := by
  have hnot := (derivesProperties_tokens property properties).mark_not_mem
    (m := .closeParen) (by decide)
  cases properties with
  | nil => exact ⟨_, rfl, fun hmem => hnot (by simp_all [propertiesTokens])⟩
  | cons next properties => exact ⟨_, rfl, fun hmem => hnot (by simp_all [propertiesTokens])⟩

/-! ## From the program to the tokens -/

section

variable {name : String} {settings : Settings} {tokens : List Token}

theorem Assignment.Derives.componentIn {assignment : Assignment} {place : Assignment.Place}
    (hderives : Derives tokens assignment)
    (heq : assignment = place.fill (.config name settings)) :
    ComponentIn Derives place.fill name settings tokens := by
  obtain ⟨assigned, signature, place⟩ := place
  cases hderives with
  | untyped other hvalue =>
      obtain ⟨rfl, rfl, hfill⟩ := Assignment.mk.inj heq
      exact (hvalue.componentIn hfill).prepend (Assignment.mk _ _) [_, _] (.untyped _)
  | typed other htype hvalue =>
      obtain ⟨rfl, rfl, hfill⟩ := Assignment.mk.inj heq
      rw [List.append_cons, ← List.cons_append, ← List.cons_append]
      refine (hvalue.componentIn hfill).prepend (Assignment.mk _ _) _ fun hother => ?_
      rw [List.cons_append, List.cons_append, ← List.append_cons]
      exact .typed _ htype hother

theorem Statement.Derives.componentIn {statement : Statement} {place : Statement.Place}
    (hderives : Derives tokens statement)
    (heq : statement = place.fill (.config name settings)) :
    ComponentIn Derives place.fill name settings tokens := by
  cases hderives with
  | empty | importName _ _ => cases place <;> contradiction
  | exportFlow hassignment =>
      cases place with
      | exportFlow place =>
          have hcomponent := hassignment.componentIn (Statement.exportFlow.inj heq)
          exact hcomponent.prepend Statement.exportFlow [_] .exportFlow
      | assign place => contradiction
  | assign hassignment =>
      cases place with
      | exportFlow place => contradiction
      | assign place =>
          have hcomponent := hassignment.componentIn (Statement.assign.inj heq)
          exact hcomponent.prepend Statement.assign [] .assign

/-- A component in a place of a program is spelled in its tokens. -/
theorem Program.Derives.componentIn {program : Program} {place : Program.Place}
    (hderives : Derives tokens program)
    (heq : program = place.fill (.config name settings)) :
    ComponentIn Derives place.fill name settings tokens := by
  induction hderives generalizing place with
  | nil => cases place <;> contradiction
  | cons hrun hrest ih =>
      cases place with
      | head place program =>
          obtain ⟨hhead, rfl⟩ := List.cons.inj heq
          exact (hrun.componentIn hhead).wrap (· :: _) [] _ fun hother => .cons hother hrest
      | tail statement place =>
          obtain ⟨rfl, htail⟩ := List.cons.inj heq
          rw [List.append_cons]
          refine (ih htail).prepend (_ :: ·) _ fun hother => ?_
          rw [← List.append_cons]
          exact .cons hrun hother

end

/-! ## From the tokens to the program -/

section

variable {outer tail tokens : List Token} {key : String}

theorem Expr.Derives.exists_place_of_openParen {value : Expr} (hderives : Derives tokens value)
    (heq : tokens = outer ++ .mark .openParen :: .identifier key :: .mark .equals :: tail) :
    ∃ place : Expr.Place, ComponentAt Derives place.fill
      (outer ++ [.mark .openParen, .identifier key]) tail value := by
  apply hderives.exists_place
  rw [heq, List.append_assoc]
  rfl

/-- An equals sign that follows an opening parenthesis and a name is not that of the
assignment but belongs to a component of its value. -/
theorem Assignment.Derives.exists_place {assignment : Assignment}
    (hderives : Derives tokens assignment)
    (heq : tokens = outer ++ .mark .openParen :: .identifier key :: .mark .equals :: tail) :
    ∃ place : Assignment.Place, ComponentAt Derives place.fill
      (outer ++ [.mark .openParen, .identifier key]) tail assignment := by
  cases hderives with
  | untyped name hvalue =>
      have hfront : Token.mark .openParen ∉ [.identifier name, .mark .equals] := by simp
      obtain ⟨inner, rfl, hinner⟩ := append_eq_append_cons_of_not_mem hfront heq
      obtain ⟨place, hcomponent⟩ := hvalue.exists_place_of_openParen hinner
      rw [List.append_assoc]
      exact ⟨⟨name, none, place⟩, hcomponent.prepend (Assignment.mk _ _) _ (.untyped name)⟩
  | typed name htype hvalue =>
      rw [List.append_cons, ← List.cons_append, ← List.cons_append] at heq
      obtain ⟨inner, rfl, hinner⟩ :=
        append_eq_append_cons_of_not_mem (by cases htype <;> simp) heq
      obtain ⟨place, hcomponent⟩ := hvalue.exists_place_of_openParen hinner
      rw [List.append_assoc]
      refine ⟨⟨name, some _, place⟩, hcomponent.prepend (Assignment.mk _ _) _ fun hother => ?_⟩
      rw [List.cons_append, List.cons_append, ← List.append_cons]
      exact .typed name htype hother

theorem Statement.Derives.exists_place {statement : Statement}
    (hderives : Derives tokens statement)
    (heq : tokens = outer ++ .mark .openParen :: .identifier key :: .mark .equals :: tail) :
    ∃ place : Statement.Place, ComponentAt Derives place.fill
      (outer ++ [.mark .openParen, .identifier key]) tail statement := by
  cases hderives with
  | empty => simp at heq
  | importName name htype =>
      have hmem : Token.mark .openParen ∈
          outer ++ .mark .openParen :: .identifier key :: .mark .equals :: tail := by simp
      rw [← heq] at hmem
      cases htype <;> simp at hmem
  | exportFlow hassignment =>
      have hexport : Token.mark .openParen ∉ [.mark .exportWord] := by simp
      obtain ⟨inner, rfl, hinner⟩ := append_eq_append_cons_of_not_mem hexport heq
      obtain ⟨place, hcomponent⟩ := hassignment.exists_place hinner
      rw [List.append_assoc]
      exact ⟨.exportFlow place, hcomponent.prepend Statement.exportFlow _ .exportFlow⟩
  | assign hassignment =>
      obtain ⟨place, hcomponent⟩ := hassignment.exists_place heq
      exact ⟨.assign place, hcomponent.prepend Statement.assign [] .assign⟩

/-- An opening parenthesis, a name and an equals sign stand in one statement. -/
theorem Program.Derives.exists_componentAt {program : Program}
    (hderives : Derives tokens program)
    (heq : tokens = outer ++ .mark .openParen :: .identifier key :: .mark .equals :: tail) :
    ∃ place : Program.Place, ComponentAt Derives place.fill
      (outer ++ [.mark .openParen, .identifier key]) tail program := by
  induction hderives generalizing outer with
  | nil => simp at heq
  | @cons run rest statement program hrun hrest ih =>
      rcases append_eq_append_cons heq with ⟨inner, hfront, hinner⟩ | ⟨inner, rfl, hinner⟩
      · match inner, hinner with
        | first :: second :: inner, hinner =>
            obtain ⟨rfl, hsecond⟩ := List.cons.inj hinner
            obtain ⟨rfl, rfl⟩ := List.cons.inj hsecond
            obtain ⟨place, hcomponent⟩ := hrun.exists_place hfront
            exact ⟨.head place _, hcomponent.wrap (· :: _) [] _ fun hother => .cons hother hrest⟩
        | [_], hinner => simp at hinner
        | [], hinner => simp at hinner
      · have hnot : Token.mark .openParen ∉ [Token.mark .semicolon] := by simp
        obtain ⟨before, rfl, hafter⟩ := append_eq_append_cons_of_not_mem hnot hinner
        obtain ⟨place, hcomponent⟩ := ih hafter
        rw [← List.append_assoc, List.append_assoc]
        refine ⟨.tail statement place, hcomponent.prepend (statement :: ·) _ fun hother => ?_⟩
        rw [← List.append_cons]
        exact .cons hrun hother

end

/-- The last occurrence of an item divides a list in one way. -/
theorem append_cons_inj_of_not_mem {α : Type} {front rest front' rest' : List α} {a : α}
    (hrest : a ∉ rest) (hrest' : a ∉ rest') (heq : front ++ a :: rest = front' ++ a :: rest') :
    front = front' ∧ rest = rest' := by
  rcases append_eq_append_cons heq with ⟨inner, -, rfl⟩ | ⟨inner, rfl, hinner⟩
  · exact absurd (List.mem_append_right inner List.mem_cons_self) hrest'
  · cases inner with
    | nil => exact ⟨(List.append_nil front).symm, (List.cons.inj hinner).2⟩
    | cons first inner =>
        obtain ⟨-, rfl⟩ := List.cons.inj hinner
        exact absurd (List.mem_append_right inner List.mem_cons_self) hrest

/-- Around the first equals sign of a component, the tokens of the component and those
around it are determined. -/
theorem ComponentAt.resolve {α : Type} {derives : List Token → α → Prop} {fill : Expr → α}
    {before back after : List Token} {name key : String} {result : α}
    (hcomponent : ComponentAt derives fill
      ((before ++ [.identifier name]) ++ [.mark .openParen, .identifier key])
      (back ++ .mark .closeParen :: after) result)
    (hback : .mark .closeParen ∉ back) :
    ∃ settings, Settings.Derives (.identifier key :: .mark .equals :: back) settings ∧
      result = fill (.config name settings) ∧ Hosts derives before name after fill := by
  obtain ⟨hbefore, htail, hsettings, hresult, hhosts⟩ := hcomponent
  have hopen := hsettings.mark_not_mem (m := .openParen) (by decide)
  have hclose := hsettings.mark_not_mem (m := .closeParen) (by decide)
  have hkey : Token.mark .openParen ∉ [Token.identifier key] := by simp
  rw [List.mem_append, List.mem_cons, not_or, not_or] at hopen hclose
  have hlast := hbefore.trans (List.append_cons _ _ _)
  obtain ⟨houter, rfl⟩ := append_cons_inj_of_not_mem hkey hopen.1 hlast
  obtain ⟨rfl, hname⟩ := List.append_inj' houter rfl
  obtain rfl : name = _ := congrArg Token.text (List.cons.inj hname).1
  obtain ⟨inner, rfl, hinner⟩ := append_eq_append_cons_of_not_mem hback htail
  cases inner with
  | nil =>
      obtain ⟨-, rfl⟩ := List.cons.inj hinner
      rw [List.append_nil] at hsettings
      exact ⟨_, hsettings, hresult, hhosts⟩
  | cons close inner =>
      obtain ⟨rfl, -⟩ := List.cons.inj hinner
      exact absurd (List.mem_append_right back List.mem_cons_self) hclose.2.2

namespace Program

/-- Where the tokens of a program spell a component with a property, there is this
component in a place of the program, and its tokens stand for those of any other
settings. -/
theorem Derives.exists_place {before after : List Token} {name : String}
    {property : String × Atom} {properties : List (String × Atom)} {program : Program}
    (hderives :
      Derives (before ++ componentTokens name (property :: properties) ++ after) program) :
    ∃ place : Place, program = place.fill (.config name (.ofList (property :: properties))) ∧
      Hosts Derives before name after place.fill := by
  have hproperties := Settings.derives_ofList (property :: properties)
  obtain ⟨back, htokens, hback⟩ := Settings.propertiesTokens_cons property properties
  rw [htokens] at hproperties
  have heq : before ++ componentTokens name (property :: properties) ++ after =
      (before ++ [.identifier name]) ++ .mark .openParen :: .identifier property.1 ::
        .mark .equals :: (back ++ .mark .closeParen :: after) := by
    simp [componentTokens, htokens]
  obtain ⟨place, hcomponent⟩ := hderives.exists_componentAt heq
  obtain ⟨settings, hsettings, hprogram, hhosts⟩ := hcomponent.resolve hback
  rw [hsettings.unique hproperties] at hprogram
  exact ⟨place, hprogram, hhosts⟩

/-- Properties spelled anew for a component of a program are read in its place. -/
theorem ofTokens_of_hosts {limit : Nat} {tokens before after : List Token} {name : String}
    {place : Place} {settings : Settings} (hhosts : Hosts Derives before name after place.fill)
    (hread : ofTokens limit tokens = .ok (place.fill (.config name settings)))
    (properties : List (String × Atom)) :
    ofTokens limit (before ++ componentTokens name properties ++ after) =
      .ok (place.fill (.config name (.ofList properties))) := by
  have hderives := hhosts (Settings.derives_ofList properties)
  obtain ⟨-, hdepth⟩ := ofTokens_eq_ok_iff_derives.mp hread
  refine ofTokens_eq_ok_iff_derives.mpr ⟨by simpa [componentTokens] using hderives, ?_⟩
  -- The height of a component does not hang on its settings.
  have hheight : (Expr.config name (.ofList properties)).height ≤
      max (Expr.config name settings).height (Expr.config name settings).height :=
    Nat.le_max_left _ _
  exact place.depth_fill_lt hheight hdepth hdepth

end Program

end Dataflow
