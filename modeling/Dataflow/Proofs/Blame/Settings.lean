import Dataflow.Proofs.Blame.Located

/-!
# Faults in settings

The reader for settings finds its faults at the first token after which the
parentheses of a configured component can no longer be closed.
-/

namespace Dataflow.Settings

/-- Properties with the parenthesis that closes them. -/
def Phrase (tokens : List Token) : Prop :=
  ∃ front properties, tokens = front ++ [.mark .closeParen] ∧
    DerivesProperties front properties

theorem phrase_property (name : String) (value : Atom) :
    Phrase [.identifier name, .mark .equals, value.token, .mark .closeParen] :=
  ⟨_, _, rfl, .one name value⟩

theorem Phrase.cons (name : String) (value : Atom) {rest : List Token} (hrest : Phrase rest) :
    Phrase (.identifier name :: .mark .equals :: value.token :: .mark .comma :: rest) := by
  obtain ⟨front, properties, rfl, hproperties⟩ := hrest
  exact ⟨_, _, rfl, .cons name value hproperties⟩

/-- Up to the parenthesis a property can be completed at every token. -/
theorem completable_property (name : String) (value : Atom) :
    Completable Phrase [] ∧ Completable Phrase [.identifier name] ∧
      Completable Phrase [.identifier name, .mark .equals] ∧
      Completable Phrase [.identifier name, .mark .equals, value.token] := by
  have hphrase := phrase_property name value
  exact ⟨⟨_, hphrase⟩, ⟨_, hphrase⟩, ⟨_, hphrase⟩, ⟨_, hphrase⟩⟩

theorem locates_readOnto (settings : Settings) : Locates (readOnto settings) Phrase := by
  intro tokens fault herror hdeep
  fun_induction readOnto settings tokens with
  | case1 settings =>
      obtain rfl := Except.error.inj herror
      exact .ended (.configEnded _) (completable_property "" (.literal "")).1
  | case2 settings name rest hname =>
      obtain rfl := Except.error.inj herror
      have hopen := (completable_property "" (.literal "")).1
      refine .rejected [] name rest rfl (.unexpected _) hopen fun others => ?_
      rw [List.nil_append, readOnto.eq_def]
      exact if_pos hname
  | case3 settings name hname =>
      obtain rfl := Except.error.inj herror
      rw [Token.eq_identifier_of_role (Decidable.not_not.mp hname)]
      exact .ended (.configEnded _) (completable_property name.text (.literal "")).2.1
  | case4 settings name hname equals rest hequals =>
      obtain rfl := Except.error.inj herror
      rw [Token.eq_identifier_of_role (Decidable.not_not.mp hname)]
      have hopen := (completable_property name.text (.literal "")).2.1
      refine .rejected [.identifier name.text] equals rest rfl (.unexpected _) hopen
        fun others => ?_
      rw [readOnto.eq_def]
      simp [hequals]
  | case5 settings name hname equals hequals =>
      obtain rfl := Except.error.inj herror
      obtain rfl := Token.role_eq_iff (m := .equals).mp (Decidable.not_not.mp hequals)
      rw [Token.eq_identifier_of_role (Decidable.not_not.mp hname)]
      exact .ended (.configEnded _) (completable_property name.text (.literal "")).2.2.1
  | case6 settings name hname equals hequals token rest hvalue =>
      obtain rfl := Except.error.inj herror
      obtain rfl := Token.role_eq_iff (m := .equals).mp (Decidable.not_not.mp hequals)
      rw [Token.eq_identifier_of_role (Decidable.not_not.mp hname)]
      have hopen := (completable_property name.text (.literal "")).2.2.1
      refine .rejected [.identifier name.text, .mark .equals] token rest rfl .badPropertyValue
        hopen fun others => ?_
      rw [readOnto.eq_def]
      simp [hvalue, Token.Mark.role]
  | case7 settings name hname equals hequals token value hvalue =>
      obtain rfl := Except.error.inj herror
      obtain rfl := Token.role_eq_iff (m := .equals).mp (Decidable.not_not.mp hequals)
      obtain rfl := Token.eq_token_of_atom? hvalue
      rw [Token.eq_identifier_of_role (Decidable.not_not.mp hname)]
      exact .ended (.configEnded _) (completable_property name.text value).2.2.2
  | case8 settings name hname equals hequals token value hvalue separator rest hcomma ih =>
      obtain rfl := Token.role_eq_iff (m := .equals).mp (Decidable.not_not.mp hequals)
      obtain rfl := Token.eq_token_of_atom? hvalue
      obtain rfl := Token.role_eq_iff (m := .comma).mp hcomma
      rw [Token.eq_identifier_of_role (Decidable.not_not.mp hname)]
      refine (ih herror).lift
        [.identifier name.text, .mark .equals, value.token, .mark .comma]
        (fun others _ hothers => ?_) fun phrase hphrase => ?_
      · rw [← hothers, readOnto.eq_def]
        simp [Token.Mark.role]
      · exact completable_of_phrase (hphrase.cons name.text value)
  | case9 => contradiction
  | case10 settings name hname equals hequals token value hvalue separator rest hcomma hclose =>
      obtain rfl := Except.error.inj herror
      obtain rfl := Token.role_eq_iff (m := .equals).mp (Decidable.not_not.mp hequals)
      obtain rfl := Token.eq_token_of_atom? hvalue
      rw [Token.eq_identifier_of_role (Decidable.not_not.mp hname)]
      have hopen := (completable_property name.text value).2.2.2
      refine .rejected [.identifier name.text, .mark .equals, value.token] separator rest rfl
        (.unexpected _) hopen fun others => ?_
      rw [readOnto.eq_def]
      simp [Token.Mark.role]

/-- There are properties unless the parentheses are closed at once. -/
theorem read_eq_readOnto {tokens : List Token}
    (hclose : tokens.head? ≠ some (.mark .closeParen)) :
    read tokens = readOnto empty tokens := by
  cases tokens with
  | nil => rfl
  | cons token rest =>
      have hrole : token.role ≠ .closeParen := Token.role_ne_of_head?_ne hclose
      exact if_neg hrole

/-- Faults in settings lie where the parentheses can no longer be closed. -/
theorem locates_read : Locates read Phrase := by
  intro tokens fault herror hdeep
  by_cases hclose : tokens.head? = some (.mark .closeParen)
  · obtain ⟨rest, rfl⟩ := List.head?_eq_some_iff.mp hclose
    contradiction
  · rw [read_eq_readOnto hclose] at herror
    refine (locates_readOnto empty herror hdeep).lift [] (fun others hhead hothers => ?_)
      fun phrase hphrase => completable_of_phrase hphrase
    rw [← hhead] at hclose
    exact (read_eq_readOnto hclose).trans hothers

end Dataflow.Settings
