import Dataflow.Proofs.Grammar
import Dataflow.Syntax.Settings

/-!
# What the settings reader reads

The reader for settings takes them off the front of the tokens, together with
the parenthesis that closes them, exactly when the tokens before it derive them.
-/

namespace Dataflow

@[simp]
theorem Atom.atom?_token (value : Atom) : value.token.atom? = some value := by
  cases value <;> rfl

theorem Token.eq_token_of_atom? {token : Token} {value : Atom}
    (hatom : token.atom? = some value) : token = value.token := by
  unfold Token.atom? at hatom
  split at hatom
  · next hrole =>
    rw [← Option.some.inj hatom]
    exact Token.eq_identifier_of_role hrole
  · next hrole =>
    rw [← Option.some.inj hatom]
    exact Token.eq_literal_of_role hrole
  · contradiction

namespace Settings

theorem derivesProperties_of_readOnto {settings result : Settings} {tokens rest : List Token}
    (hread : readOnto settings tokens = .ok (result, rest)) :
    ∃ front properties, tokens = front ++ .mark .closeParen :: rest ∧
      DerivesProperties front properties ∧ result = settings.insertAll properties := by
  fun_induction readOnto settings tokens with
  | case1 | case2 | case3 | case4 | case5 | case6 | case7 | case10 => contradiction
  | case8 settings name hname equals hequals token value hvalue separator inner hrole ih =>
      obtain ⟨front, properties, rfl, hderives, rfl⟩ := ih hread
      have hname := Token.eq_identifier_of_role (Decidable.not_not.mp hname)
      obtain rfl := Token.role_eq_iff (m := .equals).mp (Decidable.not_not.mp hequals)
      obtain rfl := Token.eq_token_of_atom? hvalue
      obtain rfl := Token.role_eq_iff (m := .comma).mp hrole
      rw [hname]
      exact ⟨_, _, by simp, .cons name.text value hderives, rfl⟩
  | case9 settings name hname equals hequals token value hvalue separator inner hrole =>
      obtain ⟨rfl, rfl⟩ := Prod.mk.inj (Except.ok.inj hread)
      have hname := Token.eq_identifier_of_role (Decidable.not_not.mp hname)
      obtain rfl := Token.role_eq_iff (m := .equals).mp (Decidable.not_not.mp hequals)
      obtain rfl := Token.eq_token_of_atom? hvalue
      obtain rfl := Token.role_eq_iff (m := .closeParen).mp hrole
      rw [hname]
      exact ⟨_, _, by simp, .one name.text value, rfl⟩

theorem DerivesProperties.readOnto_eq {tokens : List Token}
    {properties : List (String × Atom)} (hderives : DerivesProperties tokens properties)
    (settings : Settings) (rest : List Token) :
    readOnto settings (tokens ++ .mark .closeParen :: rest) =
      .ok (settings.insertAll properties, rest) := by
  induction hderives generalizing settings with
  | one name value => simp [readOnto, Token.Mark.role]
  | cons name value hrest ih => simp [readOnto, Token.Mark.role, ih]

theorem DerivesProperties.exists_cons {tokens : List Token}
    {properties : List (String × Atom)} (hderives : DerivesProperties tokens properties) :
    ∃ name rest, tokens = .identifier name :: rest := by
  cases hderives with
  | one name value => exact ⟨name, _, rfl⟩
  | cons name value hrest => exact ⟨name, _, rfl⟩

theorem DerivesProperties.read_eq {tokens : List Token} {properties : List (String × Atom)}
    (hderives : DerivesProperties tokens properties) (rest : List Token) :
    read (tokens ++ .mark .closeParen :: rest) = .ok (ofList properties, rest) := by
  have hread := hderives.readOnto_eq empty rest
  obtain ⟨name, others, rfl⟩ := hderives.exists_cons
  exact hread

theorem derives_of_readOnto {tokens rest : List Token} {settings : Settings}
    (hread : readOnto empty tokens = .ok (settings, rest)) :
    ∃ front, tokens = front ++ .mark .closeParen :: rest ∧ Derives front settings := by
  obtain ⟨front, properties, rfl, hderives, rfl⟩ := derivesProperties_of_readOnto hread
  exact ⟨front, rfl, .collect hderives (collects_ofList properties)⟩

theorem Derives.read_eq {tokens : List Token} {settings : Settings}
    (hderives : Derives tokens settings) (rest : List Token) :
    read (tokens ++ .mark .closeParen :: rest) = .ok (settings, rest) := by
  cases hderives with
  | empty => rfl
  | collect hproperties hcollects =>
      rw [collects_iff.mp hcollects]
      exact hproperties.read_eq rest

theorem read_eq_ok_iff {tokens rest : List Token} {settings : Settings} :
    read tokens = .ok (settings, rest) ↔
      ∃ front, tokens = front ++ .mark .closeParen :: rest ∧ Derives front settings := by
  constructor
  · intro hread
    unfold read at hread
    split at hread
    · exact derives_of_readOnto hread
    · split at hread
      · next hrole =>
        obtain ⟨rfl, rfl⟩ := Prod.mk.inj (Except.ok.inj hread)
        obtain rfl := Token.role_eq_iff (m := .closeParen).mp hrole
        exact ⟨[], rfl, .empty⟩
      · exact derives_of_readOnto hread
  · rintro ⟨front, rfl, hderives⟩
    exact hderives.read_eq rest

end Settings

end Dataflow
