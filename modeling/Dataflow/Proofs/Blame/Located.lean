import Dataflow.Proofs.Gating

/-!
# Where a fault lies

A reader finds a fault at the right place when what stands before it can still
be completed to a phrase, and nothing can be completed any more once the blamed
token is there.  The second part is a fact about the reader alone: it refuses the
tokens up to the blamed one with every continuation.  An arrow with nothing after
it is the one fault that is found a token too early, because the arrow is blamed
and not the token behind it that ends the value of a map entry.
-/

namespace Dataflow

/-- More tokens can follow so that all of them are a phrase. -/
def Completable (Phrase : List Token → Prop) (tokens : List Token) : Prop :=
  ∃ rest, Phrase (tokens ++ rest)

theorem completable_of_phrase {Phrase : List Token → Prop} {tokens : List Token}
    (hphrase : Phrase tokens) : Completable Phrase tokens :=
  ⟨[], (List.append_nil tokens).symm ▸ hphrase⟩

theorem Completable.of_append {Phrase : List Token → Prop} {tokens rest : List Token}
    (hopen : Completable Phrase (tokens ++ rest)) : Completable Phrase tokens := by
  obtain ⟨others, hphrase⟩ := hopen
  rw [List.append_assoc] at hphrase
  exact ⟨rest ++ others, hphrase⟩

namespace Fault

/-- The fault says that more tokens are needed after these. -/
inductive AtEnd (tokens : List Token) : Fault → Prop where
  | missing : AtEnd tokens .missing
  | configEnded (expected : Expectation) : AtEnd tokens (.configEnded expected)
  | danglingArrow {arrow : Token} (hlast : tokens.getLast? = some arrow) :
      AtEnd tokens (.danglingArrow arrow)

/-- The fault says that this token has to be another one. -/
inductive Rejects (token : Token) : Fault → Prop where
  | unexpected (expected : Expectation) : Rejects token (.unexpected expected token)
  | badPropertyValue : Rejects token (.badPropertyValue token)

theorem AtEnd.append {tokens : List Token} {fault : Fault} (hfault : fault.AtEnd tokens)
    (front : List Token) : fault.AtEnd (front ++ tokens) := by
  cases hfault with
  | missing => exact .missing
  | configEnded expected => exact .configEnded expected
  | danglingArrow hlast =>
      apply AtEnd.danglingArrow
      rw [List.getLast?_append, hlast, Option.some_or]

end Fault

/-- The fault lies where the tokens stop to be completable.  What is refused with
this fault is `Refused`. -/
inductive Located (Refused Phrase : List Token → Prop) (tokens : List Token)
    (fault : Fault) : Prop where
  | ended (hfault : fault.AtEnd tokens) (hopen : Completable Phrase tokens)
  | rejected (before : List Token) (token : Token) (after : List Token)
      (htokens : tokens = before ++ token :: after) (hfault : fault.Rejects token)
      (hopen : Completable Phrase before)
      (hrefused : ∀ others, Refused (before ++ token :: others))
  | dangling (before : List Token) (token : Token) (after : List Token)
      (htokens : tokens = before ++ .mark .arrow :: token :: after)
      (hfault : fault = .danglingArrow (.mark .arrow)) (htoken : token.endsEntry = true)
      (hopen : Completable Phrase (before ++ [.mark .arrow]))
      (hstep : ∀ value : Atom, Completable Phrase (before ++ [value.token, token]))
      (hrefused : ∀ others, Refused (before ++ .mark .arrow :: token :: others))

/-- A fault in a part lies at the same place of the whole, when the whole is
refused because the part is, and every phrase for the part can be completed to
one for the whole.  What is refused may depend on the next token after `front`. -/
theorem Located.lift {Refused Phrase Refused' Phrase' : List Token → Prop}
    {tokens : List Token} {fault : Fault} (front : List Token)
    (hrefuse : ∀ others, others.head? = tokens.head? → Refused others →
      Refused' (front ++ others))
    (hcomplete : ∀ phrase, Phrase phrase → Completable Phrase' (front ++ phrase))
    (hlocated : Located Refused Phrase tokens fault) :
    Located Refused' Phrase' (front ++ tokens) fault := by
  have hlift : ∀ {tokens : List Token}, Completable Phrase tokens →
      Completable Phrase' (front ++ tokens) := by
    intro tokens hopen
    obtain ⟨rest, hphrase⟩ := hopen
    have hopen := hcomplete (tokens ++ rest) hphrase
    rw [← List.append_assoc] at hopen
    exact hopen.of_append
  cases hlocated with
  | ended hfault hopen => exact .ended (hfault.append front) (hlift hopen)
  | rejected before token after htokens hfault hopen hrefused =>
      refine .rejected (front ++ before) token after ?_ hfault (hlift hopen) fun others => ?_
      · rw [htokens, List.append_assoc]
      · rw [List.append_assoc]
        apply hrefuse _ ?_ (hrefused others)
        rw [htokens]
        cases before <;> rfl
  | dangling before token after htokens hfault htoken hopen hstep hrefused =>
      refine .dangling (front ++ before) token after ?_ hfault htoken ?_ (fun value => ?_)
        fun others => ?_
      · rw [htokens, List.append_assoc]
      · rw [List.append_assoc]
        exact hlift hopen
      · rw [List.append_assoc]
        exact hlift (hstep value)
      · rw [List.append_assoc]
        apply hrefuse _ ?_ (hrefused others)
        rw [htokens]
        cases before <;> rfl

/-- Every fault that the reader finds, apart from the depth, lies where the tokens
stop to be completable. -/
def Locates {α : Type} (read : List Token → Except Fault α)
    (Phrase : List Token → Prop) : Prop :=
  ∀ ⦃tokens : List Token⦄ ⦃fault : Fault⦄, read tokens = .error fault → ¬ fault.IsTooDeep →
    Located (fun others => read others = .error fault) Phrase tokens fault

/-- A reader that has no room left finds no other fault. -/
theorem tooDeep_ne_error {α : Type} {limit : Nat} {found : Option Token} {fault : Fault}
    (hdeep : ¬ fault.IsTooDeep) :
    (Except.error (.tooDeep limit found) : Except Fault α) ≠ .error fault := by
  intro herror
  obtain rfl := Except.error.inj herror
  exact hdeep trivial

theorem locates_tooDeep {α : Type} (limit : Nat) (Phrase : List Token → Prop) :
    Locates (TokenReader.tooDeep (α := α) limit).read Phrase := by
  intro tokens fault herror hdeep
  exact absurd herror (tooDeep_ne_error hdeep)

/-- What the reader takes off the front derives its value, and is taken off again
when other tokens follow that begin with the same token. -/
def TakesFront {α : Type} (read : List Token → Except Fault (α × List Token))
    (Derives : List Token → α → Prop) : Prop :=
  ∀ ⦃tokens rest : List Token⦄ ⦃value : α⦄, read tokens = .ok (value, rest) →
    ∃ front, tokens = front ++ rest ∧ Derives front value ∧
      ∀ others, others.head? = rest.head? → read (front ++ others) = .ok (value, others)

/-- A fault lies in the part that is read first, or in what is read after it. -/
theorem located_bind {α β : Type} {part : List Token → Except Fault (α × List Token)}
    {next : α × List Token → Except Fault β} {Derives : List Token → α → Prop}
    {PartPhrase Phrase : List Token → Prop} {tokens : List Token} {fault : Fault}
    (hpart : Locates part PartPhrase) (hfront : TakesFront part Derives)
    (hcomplete : ∀ phrase, PartPhrase phrase → Completable Phrase phrase)
    (herror : part tokens >>= next = .error fault) (hdeep : ¬ fault.IsTooDeep)
    (hnext : ∀ front rest value, tokens = front ++ rest → Derives front value →
      part tokens = .ok (value, rest) → next (value, rest) = .error fault →
        Located (fun others => next (value, others) = .error fault)
          (fun others => Phrase (front ++ others)) rest fault) :
    Located (fun others => part others >>= next = .error fault) Phrase tokens fault := by
  rcases bind_eq_error_iff.mp herror with hfault | ⟨⟨value, rest⟩, hread, hafter⟩
  · refine (hpart hfault hdeep).lift [] (fun others _ hothers => ?_) hcomplete
    exact bind_eq_error_iff.mpr (.inl hothers)
  · obtain ⟨front, rfl, hderives, hagain⟩ := hfront hread
    have hlocated := hnext front rest value rfl hderives hread hafter
    refine hlocated.lift front (fun others hhead hothers => ?_)
      fun phrase hphrase => completable_of_phrase hphrase
    exact bind_eq_error_iff.mpr (.inr ⟨_, hagain others hhead, hothers⟩)

/-- A reader that begins with a token of a fixed role locates its faults when the
rest of it does. -/
theorem locates_expectRole_bind {α : Type} {role : Token.Role} {expected : Expectation}
    {next : Token × List Token → Except Fault α} {Phrase : List Token → Prop}
    (hopen : Completable Phrase [])
    (hnext : ∀ token, token.role = role →
      Locates (fun rest => next (token, rest)) fun rest => Phrase (token :: rest)) :
    Locates (fun tokens => expectRole role expected tokens >>= next) Phrase := by
  intro tokens fault herror hdeep
  dsimp only at herror
  cases tokens with
  | nil =>
      obtain rfl := Except.error.inj herror
      exact .ended .missing hopen
  | cons token rest =>
      by_cases hrole : token.role = role
      · have hstep : ∀ others, (expectRole role expected (token :: others) >>= next) =
            next (token, others) := fun others => by
          rw [expectRole_of_eq hrole]
          rfl
        rw [hstep] at herror
        refine (hnext token hrole herror hdeep).lift [token] (fun others _ hothers => ?_)
          fun phrase hphrase => completable_of_phrase hphrase
        exact (hstep others).trans hothers
      · have hstep : ∀ others, (expectRole role expected (token :: others) >>= next) =
            .error (.unexpected expected token) := fun others => by
          rw [expectRole_of_ne hrole]
          rfl
        rw [hstep] at herror
        obtain rfl := Except.error.inj herror
        exact .rejected [] token rest rfl (.unexpected expected) hopen hstep

end Dataflow
