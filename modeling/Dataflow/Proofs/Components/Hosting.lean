import Dataflow.Proofs.Slots

/-!
# Components in their places

The tokens around a component leave its settings open: they host any other settings
in the same place.  A component is spelled within some tokens when what stands around
it hosts it, and what a derivation adds around these tokens hosts it as well.
-/

namespace Dataflow

/-- The tokens before a component and those after it derive something with the
component in its place, whatever settings it has. -/
def Hosts {α : Type} (derives : List Token → α → Prop) (before : List Token) (name : String)
    (after : List Token) (fill : Expr → α) : Prop :=
  ∀ {tokens : List Token} {settings : Settings}, Settings.Derives tokens settings →
    derives (before ++ .identifier name :: .mark .openParen :: (tokens ++ .mark .closeParen ::
      after)) (fill (.config name settings))

/-- What a derivation adds around its part stands around the component as well. -/
theorem Hosts.wrap {α β : Type} {derives : List Token → α → Prop}
    {derives' : List Token → β → Prop} {before after : List Token} {name : String}
    {fill : Expr → α} (f : α → β) (front back : List Token)
    (hhosts : Hosts derives before name after fill)
    (hwrap : ∀ {tokens settings}, derives tokens (fill (.config name settings)) →
      derives' (front ++ (tokens ++ back)) (f (fill (.config name settings)))) :
    Hosts derives' (front ++ before) name (after ++ back) (fun step => f (fill step)) := by
  intro tokens settings hsettings
  have hderives := hwrap (hhosts hsettings)
  simpa using hderives

/-- A flow hosts what its steps host. -/
theorem Hosts.flow {before after : List Token} {name : String} {first second : Expr}
    {steps : List Expr} {settings : Settings} {place : Expr.StepsPlace}
    (hhosts : Hosts Expr.DerivesSteps before name after place.fill)
    (hsteps : first :: second :: steps = place.fill (.config name settings)) :
    Hosts Expr.Derives before name after (Expr.Place.flow place).fill := by
  intro _ _ hother
  cases place with
  | head place others =>
      obtain ⟨-, rfl⟩ := List.cons.inj hsteps
      exact .flow (hhosts hother)
  | tail first place => exact (hhosts hother).derives_flow (place.fill_ne_nil _)

/-- A component is spelled within the tokens, and what stands around it hosts it. -/
inductive ComponentIn {α : Type} (derives : List Token → α → Prop) (fill : Expr → α)
    (name : String) (settings : Settings) (tokens : List Token) : Prop where
  | intro {before inner after : List Token}
      (htokens : tokens = before ++ .identifier name :: .mark .openParen ::
        (inner ++ .mark .closeParen :: after))
      (hsettings : Settings.Derives inner settings)
      (hhosts : Hosts derives before name after fill)

/-- The tokens up to an equals sign and those after it spell a component, with what
stands around it, and the equals sign is that of one of its properties. -/
inductive ComponentAt {α : Type} (derives : List Token → α → Prop) (fill : Expr → α)
    (before tail : List Token) (result : α) : Prop where
  | intro {outer front back after : List Token} {name : String} {settings : Settings}
      (hbefore : before = outer ++ .identifier name :: .mark .openParen :: front)
      (htail : tail = back ++ .mark .closeParen :: after)
      (hsettings : Settings.Derives (front ++ .mark .equals :: back) settings)
      (hresult : result = fill (.config name settings))
      (hhosts : Hosts derives outer name after fill)

section

variable {α β : Type} {derives : List Token → α → Prop} {derives' : List Token → β → Prop}
variable {fill : Expr → α}

theorem ComponentIn.wrap {name : String} {settings : Settings} {tokens : List Token}
    (f : α → β) (front back : List Token)
    (hcomponent : ComponentIn derives fill name settings tokens)
    (hwrap : ∀ {tokens settings}, derives tokens (fill (.config name settings)) →
      derives' (front ++ (tokens ++ back)) (f (fill (.config name settings)))) :
    ComponentIn derives' (fun step => f (fill step)) name settings
      (front ++ (tokens ++ back)) := by
  obtain ⟨rfl, hsettings, hhosts⟩ := hcomponent
  exact .intro (by simp) hsettings (hhosts.wrap f front back hwrap)

theorem ComponentIn.prepend {name : String} {settings : Settings} {tokens : List Token}
    (f : α → β) (front : List Token)
    (hcomponent : ComponentIn derives fill name settings tokens)
    (hwrap : ∀ {tokens settings}, derives tokens (fill (.config name settings)) →
      derives' (front ++ tokens) (f (fill (.config name settings)))) :
    ComponentIn derives' (fun step => f (fill step)) name settings (front ++ tokens) := by
  have hwrapped := hcomponent.wrap f front [] fun {tokens settings} hderives => by
    rw [List.append_nil]
    exact hwrap hderives
  rwa [List.append_nil] at hwrapped

theorem ComponentAt.wrap {before tail : List Token} {result : α} (f : α → β)
    (front back : List Token) (hcomponent : ComponentAt derives fill before tail result)
    (hwrap : ∀ {tokens name settings}, derives tokens (fill (.config name settings)) →
      derives' (front ++ (tokens ++ back)) (f (fill (.config name settings)))) :
    ComponentAt derives' (fun step => f (fill step)) (front ++ before) (tail ++ back)
      (f result) := by
  obtain ⟨rfl, rfl, hsettings, rfl, hhosts⟩ := hcomponent
  exact .intro (by simp) (by simp) hsettings rfl (hhosts.wrap f front back hwrap)

theorem ComponentAt.prepend {before tail : List Token} {result : α} (f : α → β)
    (front : List Token) (hcomponent : ComponentAt derives fill before tail result)
    (hwrap : ∀ {tokens name settings}, derives tokens (fill (.config name settings)) →
      derives' (front ++ tokens) (f (fill (.config name settings)))) :
    ComponentAt derives' (fun step => f (fill step)) (front ++ before) tail (f result) := by
  have hwrapped := hcomponent.wrap f front [] fun {tokens name settings} hderives => by
    rw [List.append_nil]
    exact hwrap hderives
  rwa [List.append_nil] at hwrapped

end

end Dataflow
