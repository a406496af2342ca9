import Dataflow.Proofs.Blame.Located

/-!
# Faults in patterns

The reader for patterns finds its faults at the first token after which no
pattern can be completed.
-/

namespace Dataflow.Pattern

theorem takesFront_reader (limit room : Nat) :
    TakesFront (reader limit room).read Derives := by
  intro tokens rest pattern hread
  obtain ⟨⟨front, rfl, hderives, hheight⟩, hends⟩ := read_eq_ok_iff.mp hread
  refine ⟨front, rfl, hderives, fun others hhead => ?_⟩
  exact hderives.read_eq limit hheight (hends.of_head?_eq hhead)

def Phrase (tokens : List Token) : Prop :=
  ∃ pattern, Derives tokens pattern

/-- Arguments with the parenthesis that closes them. -/
def ArgsPhrase (tokens : List Token) : Prop :=
  ∃ front args, tokens = front ++ [.mark .closeParen] ∧ DerivesArgs front args

theorem phrase_atom (value : Atom) : Phrase [value.token] := ⟨_, .atom value⟩

theorem ArgsPhrase.cons {tokens rest : List Token} {arg : Pattern}
    (harg : Derives tokens arg) (hrest : ArgsPhrase rest) :
    ArgsPhrase (tokens ++ .mark .comma :: rest) := by
  obtain ⟨front, args, rfl, hargs⟩ := hrest
  exact ⟨tokens ++ .mark .comma :: front, arg :: args, by simp, .cons harg hargs⟩

/-- After an argument the parentheses can be closed. -/
theorem Derives.completable {tokens : List Token} {arg : Pattern}
    (harg : Derives tokens arg) : Completable ArgsPhrase tokens :=
  ⟨[.mark .closeParen], tokens, [arg], rfl, .one harg⟩

theorem locates_readArgsOnto {limit room : Nat}
    (harg : Locates (reader limit room).read Phrase) (found : List Pattern) :
    Locates (readArgsOnto (reader limit room) found) ArgsPhrase := by
  intro tokens fault herror hdeep
  rw [funext (readArgsOnto_eq_bind _ found)] at herror ⊢
  have hcomplete : ∀ phrase, Phrase phrase → Completable ArgsPhrase phrase := by
    rintro phrase ⟨arg, harg⟩
    exact harg.completable
  apply located_bind harg (takesFront_reader limit room) hcomplete herror hdeep
  intro front rest pattern htokens hderives hread hnext
  have hlt := (reader limit room).shrinks hread
  cases rest with
  | nil =>
      obtain rfl := Except.error.inj hnext
      exact .ended .missing hderives.completable
  | cons separator rest =>
      dsimp only at hnext
      split at hnext
      · next hrole =>
        obtain rfl := Token.role_eq_iff (m := .comma).mp hrole
        exact (locates_readArgsOnto harg (pattern :: found) hnext hdeep).lift [.mark .comma]
          (fun others _ hothers => hothers)
          fun phrase hphrase => completable_of_phrase (hphrase.cons hderives)
      · contradiction
      · next hcomma hclose =>
        obtain rfl := Except.error.inj hnext
        refine .rejected [] separator rest rfl (.unexpected _) hderives.completable ?_
        intro others
        rw [List.nil_append]
        dsimp only
        split
        · contradiction
        · contradiction
        · rfl
termination_by tokens => tokens.length

/-- There are arguments unless the parentheses are closed at once. -/
theorem readArgs_eq_readArgsOnto (arg : TokenReader Pattern) {tokens : List Token}
    (hclose : tokens.head? ≠ some (.mark .closeParen)) :
    readArgs arg tokens = readArgsOnto arg [] tokens := by
  cases tokens with
  | nil => rfl
  | cons token rest =>
      have hrole : token.role ≠ .closeParen := Token.role_ne_of_head?_ne hclose
      exact if_neg hrole

theorem locates_readArgs {limit room : Nat}
    (harg : Locates (reader limit room).read Phrase) :
    Locates (readArgs (reader limit room)) ArgsPhrase := by
  intro tokens fault herror hdeep
  by_cases hclose : tokens.head? = some (.mark .closeParen)
  · obtain ⟨rest, rfl⟩ := List.head?_eq_some_iff.mp hclose
    contradiction
  · rw [readArgs_eq_readArgsOnto _ hclose] at herror
    refine (locates_readArgsOnto harg [] herror hdeep).lift [] (fun others hhead hothers => ?_)
      fun phrase hphrase => completable_of_phrase hphrase
    rw [← hhead] at hclose
    exact (readArgs_eq_readArgsOnto _ hclose).trans hothers

theorem locates_readWith {limit room : Nat}
    (harg : Locates (reader limit room).read Phrase) :
    Locates (readWith (reader limit room)) Phrase := by
  intro tokens fault herror hdeep
  have hopen : Completable Phrase [] := ⟨_, phrase_atom (.literal "")⟩
  revert herror
  fun_cases readWith (reader limit room) tokens with
  | case1 =>
      intro herror
      obtain rfl := Except.error.inj herror
      exact .ended .missing hopen
  | case2 | case3 | case5 | case6 =>
      intro herror
      contradiction
  | case4 token hrole next inner hnext other hpart =>
      intro herror
      obtain rfl := Except.error.inj herror
      obtain rfl := Token.role_eq_iff (m := .openParen).mp hnext
      rw [Token.eq_identifier_of_role hrole]
      refine (locates_readArgs harg hpart hdeep).lift [.identifier token.text, .mark .openParen]
        (fun others _ hothers => ?_) fun phrase hphrase => ?_
      · rw [List.cons_append, List.singleton_append, readWith_constructor, hothers]
        rfl
      · obtain ⟨front, args, rfl, hargs⟩ := hphrase
        exact completable_of_phrase ⟨_, .constructor token.text hargs⟩
  | case7 token rest hliteral hname =>
      intro herror
      obtain rfl := Except.error.inj herror
      refine .rejected [] token rest rfl (.unexpected _) hopen fun others => ?_
      simp_all [readWith]

/-- Faults in a pattern lie where no pattern can be completed. -/
theorem locates_reader (limit room : Nat) : Locates (reader limit room).read Phrase := by
  induction room with
  | zero => exact locates_tooDeep limit Phrase
  | succ room ih => exact locates_readWith ih

end Dataflow.Pattern
