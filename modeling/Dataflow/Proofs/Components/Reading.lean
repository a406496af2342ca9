import Dataflow.Proofs.Components.Hosting
import Dataflow.Proofs.Spelling

/-!
# Components in tokens and in programs

Every component of a program is spelled by tokens that host it, and where the tokens
of a program hold a name, an opening parenthesis, another name and an equals sign,
there is a component of the program.  In both cases any other settings may take the
place of its settings: nothing else of the program changes.
-/

namespace Dataflow

/-! ## From the program to the tokens -/

namespace Expr

/-- The tokens of an entry end with the comma that comes before the other entries. -/
theorem entry_append {keyTokens valueTokens rest : List Token} :
    keyTokens ++ .mark .colon :: (valueTokens ++ .mark .comma :: rest) =
      (keyTokens ++ .mark .colon :: (valueTokens ++ [.mark .comma])) ++ rest := by
  simp

section

variable {name : String} {settings : Settings}

mutual

/-- A component in a place of an expression is spelled in its tokens. -/
theorem Derives.componentIn {tokens : List Token} {expr : Expr} {place : Place} :
    Derives tokens expr → expr = place.fill (.config name settings) →
      ComponentIn Derives place.fill name settings tokens
  | .step (.cons arrows hstep hrest), heq =>
      (hstep.componentIn heq).wrap id (List.replicate arrows (.mark .arrow)) _
        fun hother => .step (.cons arrows hother hrest)
  | .flow hsteps, heq => by
      cases place with
      | here | map place => contradiction
      | flow place =>
          have heq := Expr.flow.inj heq
          obtain ⟨htokens, hsettings, hhosts⟩ := hsteps.componentIn heq
          exact .intro htokens hsettings (hhosts.flow heq)

theorem DerivesSteps.componentIn {tokens : List Token} {steps : List Expr}
    {place : StepsPlace} :
    DerivesSteps tokens steps → steps = place.fill (.config name settings) →
      ComponentIn DerivesSteps place.fill name settings tokens
  | .nil, heq => by
      cases place <;> contradiction
  | .cons arrows hstep hrest, heq => by
      cases place with
      | head place others =>
          obtain ⟨hhead, rfl⟩ := List.cons.inj heq
          exact (hstep.componentIn hhead).wrap (· :: _) (List.replicate arrows (.mark .arrow)) _
            fun hother => .cons arrows hother hrest
      | tail first place =>
          obtain ⟨rfl, htail⟩ := List.cons.inj heq
          rw [← List.append_assoc]
          refine (hrest.componentIn htail).prepend (_ :: ·) _ fun hother => ?_
          rw [List.append_assoc]
          exact .cons arrows hstep hother

theorem DerivesStep.componentIn {tokens : List Token} {step : Expr} {place : Place} :
    DerivesStep tokens step → step = place.fill (.config name settings) →
      ComponentIn DerivesStep place.fill name settings tokens
  | .atom value, heq => by
      cases place <;> contradiction
  | .config other hsettings, heq => by
      cases place with
      | here =>
          obtain ⟨rfl, rfl⟩ := Expr.config.inj heq
          exact .intro (List.nil_append _).symm hsettings (DerivesStep.config _)
      | flow place | map place => contradiction
  | .map hmap, heq => by
      cases place with
      | here | flow place => contradiction
      | map place =>
          exact (hmap.componentIn (Expr.map.inj heq)).prepend Expr.map [] .map

theorem DerivesMap.componentIn {tokens : List Token} {entries : List (Pattern × Expr)}
    {place : EntriesPlace} :
    DerivesMap tokens entries → entries = place.fill (.config name settings) →
      ComponentIn DerivesMap place.fill name settings tokens
  | .empty, heq => absurd heq.symm (place.fill_ne_nil _)
  | .entries hentries, heq =>
      (hentries.componentIn heq).wrap id [.mark .openBrace] [.mark .closeBrace] .entries

theorem DerivesEntries.componentIn {tokens : List Token} {entries : List (Pattern × Expr)}
    {place : EntriesPlace} :
    DerivesEntries tokens entries → entries = place.fill (.config name settings) →
      ComponentIn DerivesEntries place.fill name settings tokens
  | .one hkey hvalue, heq => by
      cases place with
      | head other place entries =>
          obtain ⟨hhead, rfl⟩ := List.cons.inj heq
          obtain ⟨rfl, hvalueEq⟩ := Prod.mk.inj hhead
          rw [List.append_cons]
          refine (hvalue.componentIn hvalueEq).prepend (fun value => [(_, value)]) _ ?_
          intro _ _ hother
          rw [← List.append_cons]
          exact .one hkey hother
      | tail entry place => exact absurd (List.cons.inj heq).2.symm (place.fill_ne_nil _)
  | .cons hkey hvalue hrest, heq => by
      cases place with
      | head other place others =>
          obtain ⟨hhead, rfl⟩ := List.cons.inj heq
          obtain ⟨rfl, hvalueEq⟩ := Prod.mk.inj hhead
          rw [List.append_cons]
          refine (hvalue.componentIn hvalueEq).wrap (fun value => (_, value) :: _) _ _ ?_
          intro _ _ hother
          rw [← List.append_cons]
          exact .cons hkey hother hrest
      | tail entry place =>
          obtain ⟨rfl, htail⟩ := List.cons.inj heq
          rw [entry_append]
          refine (hrest.componentIn htail).prepend (_ :: ·) _ fun hother => ?_
          rw [← entry_append]
          exact .cons hkey hvalue hother

end

end

/-! ## From the tokens to the program -/

theorem equals_not_mem_key {keyTokens : List Token} {key : Pattern}
    (hkey : Pattern.Derives keyTokens key) :
    Token.mark .equals ∉ keyTokens ++ [.mark .colon] := by
  simpa using hkey.mark_not_mem (by decide)

mutual

/-- Every equals sign in the tokens of a value belongs to a component. -/
theorem Derives.exists_place {tokens before tail : List Token} {expr : Expr} :
    Derives tokens expr → tokens = before ++ .mark .equals :: tail →
      ∃ place : Place, ComponentAt Derives place.fill before tail expr
  | .step hsteps, heq => by
      obtain ⟨place, hbefore, htail, hsettings, hresult, hhosts⟩ := hsteps.exists_place heq
      cases place with
      | head place others =>
          obtain ⟨rfl, rfl⟩ := List.cons.inj hresult
          exact ⟨place, .intro hbefore htail hsettings rfl fun hother => .step (hhosts hother)⟩
      | tail first place =>
          obtain ⟨second, others, hfill⟩ := List.exists_cons_of_ne_nil (place.fill_ne_nil _)
          rw [StepsPlace.fill, hfill] at hresult
          simp at hresult
  | .flow hsteps, heq => by
      obtain ⟨place, hbefore, htail, hsettings, hresult, hhosts⟩ := hsteps.exists_place heq
      exact ⟨.flow place,
        .intro hbefore htail hsettings (congrArg Expr.flow hresult) (hhosts.flow hresult)⟩

theorem DerivesSteps.exists_place {tokens before tail : List Token} {steps : List Expr} :
    DerivesSteps tokens steps → tokens = before ++ .mark .equals :: tail →
      ∃ place : StepsPlace, ComponentAt DerivesSteps place.fill before tail steps
  | .nil, heq => absurd heq (by simp)
  | .cons arrows hstep hrest, heq => by
      have harrows : Token.mark .equals ∉ List.replicate arrows (.mark .arrow) := by simp
      obtain ⟨inner, rfl, hinner⟩ := append_eq_append_cons_of_not_mem harrows heq
      rcases append_eq_append_cons hinner with ⟨tail, hfront, rfl⟩ | ⟨before, rfl, hafter⟩
      · obtain ⟨place, hcomponent⟩ := hstep.exists_place hfront
        exact ⟨.head place _, hcomponent.wrap (· :: _) _ _ fun hother =>
          .cons arrows hother hrest⟩
      · obtain ⟨place, hcomponent⟩ := hrest.exists_place hafter
        rw [← List.append_assoc]
        refine ⟨.tail _ place, hcomponent.prepend (_ :: ·) _ fun hother => ?_⟩
        rw [List.append_assoc]
        exact .cons arrows hstep hother

theorem DerivesStep.exists_place {tokens before tail : List Token} {step : Expr} :
    DerivesStep tokens step → tokens = before ++ .mark .equals :: tail →
      ∃ place : Place, ComponentAt DerivesStep place.fill before tail step
  | .atom value, heq => by
      have hmem : Token.mark .equals ∈ [value.token] := heq ▸ by simp
      simp [(value.token_ne_mark _).symm] at hmem
  | .config name hsettings, heq => by
      have hopen : Token.mark .equals ∉ [.identifier name, .mark .openParen] := by simp
      obtain ⟨front, rfl, hinner⟩ := append_eq_append_cons_of_not_mem hopen heq
      rcases append_eq_append_cons hinner with ⟨back, rfl, rfl⟩ | ⟨others, -, hclose⟩
      · exact ⟨.here, .intro (List.nil_append _).symm rfl hsettings rfl (DerivesStep.config _)⟩
      · have hmem : Token.mark .equals ∈ [Token.mark .closeParen] := hclose ▸ by simp
        simp at hmem
  | .map hmap, heq => by
      obtain ⟨place, hcomponent⟩ := hmap.exists_place heq
      exact ⟨.map place, hcomponent.prepend Expr.map [] .map⟩

theorem DerivesMap.exists_place {tokens before tail : List Token}
    {entries : List (Pattern × Expr)} :
    DerivesMap tokens entries → tokens = before ++ .mark .equals :: tail →
      ∃ place : EntriesPlace, ComponentAt DerivesMap place.fill before tail entries
  | .empty, heq => by
      have hmem : Token.mark .equals ∈ [.mark .openBrace, .mark .closeBrace] := heq ▸ by simp
      simp at hmem
  | .entries hentries, heq => by
      have hbrace : Token.mark .equals ∉ [Token.mark .openBrace] := by simp
      obtain ⟨before, rfl, hinner⟩ := append_eq_append_cons_of_not_mem hbrace heq
      rcases append_eq_append_cons hinner with ⟨tail, hfront, rfl⟩ | ⟨others, -, hclose⟩
      · obtain ⟨place, hcomponent⟩ := hentries.exists_place hfront
        exact ⟨place, hcomponent.wrap id [.mark .openBrace] _ .entries⟩
      · have hmem : Token.mark .equals ∈ [Token.mark .closeBrace] := hclose ▸ by simp
        simp at hmem

theorem DerivesEntries.exists_place {tokens before tail : List Token}
    {entries : List (Pattern × Expr)} :
    DerivesEntries tokens entries → tokens = before ++ .mark .equals :: tail →
      ∃ place : EntriesPlace, ComponentAt DerivesEntries place.fill before tail entries
  | .one hkey hvalue, heq => by
      rw [List.append_cons] at heq
      obtain ⟨inner, rfl, hinner⟩ :=
        append_eq_append_cons_of_not_mem (equals_not_mem_key hkey) heq
      obtain ⟨place, hcomponent⟩ := hvalue.exists_place hinner
      refine ⟨.head _ place [], hcomponent.prepend (fun value => [(_, value)]) _ ?_⟩
      intro _ _ _ hother
      rw [← List.append_cons]
      exact .one hkey hother
  | .cons hkey hvalue hrest, heq => by
      rw [List.append_cons] at heq
      obtain ⟨inner, rfl, hinner⟩ :=
        append_eq_append_cons_of_not_mem (equals_not_mem_key hkey) heq
      rcases append_eq_append_cons hinner with ⟨tail, hfront, rfl⟩ | ⟨others, rfl, hcomma⟩
      · obtain ⟨place, hcomponent⟩ := hvalue.exists_place hfront
        refine ⟨.head _ place _, hcomponent.wrap (fun value => (_, value) :: _) _ _ ?_⟩
        intro _ _ _ hother
        rw [← List.append_cons]
        exact .cons hkey hother hrest
      · have hnot : Token.mark .equals ∉ [Token.mark .comma] := by simp
        obtain ⟨before, rfl, hafter⟩ := append_eq_append_cons_of_not_mem hnot hcomma
        obtain ⟨place, hcomponent⟩ := hrest.exists_place hafter
        rw [← List.append_cons, List.singleton_append, entry_append]
        refine ⟨.tail (_, _) place, hcomponent.prepend (_ :: ·) _ fun hother => ?_⟩
        rw [← entry_append]
        exact .cons hkey hvalue hother

end

end Expr

end Dataflow
