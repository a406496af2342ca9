import Dataflow.Proofs.Nesting
import Dataflow.Syntax.Pattern

/-!
# What the pattern reader reads

The reader for patterns takes a pattern off the front of the tokens exactly when
they begin with the tokens of that pattern, its arguments fit into the room that
is left, and a bare name is not followed by an opening parenthesis.
-/

namespace Dataflow.Pattern

/-- A bare name is a pattern only where no opening parenthesis follows it. -/
def EndsBefore (rest : List Token) : Pattern → Prop
  | .atom (.identifier _) => rest.head? ≠ some (.mark .openParen)
  | _ => True

theorem endsBefore_of_head? {rest : List Token} (hrest : rest.head? ≠ some (.mark .openParen))
    (pattern : Pattern) : pattern.EndsBefore rest := by
  cases pattern with
  | atom value =>
      cases value with
      | identifier name => exact hrest
      | literal text => trivial
  | constructor name args => trivial

theorem endsBefore_cons {token : Token} (htoken : token ≠ .mark .openParen)
    (rest : List Token) (pattern : Pattern) : pattern.EndsBefore (token :: rest) := by
  apply endsBefore_of_head?
  intro hhead
  exact htoken (Option.some.inj hhead)

/-- Only the next token matters. -/
theorem EndsBefore.of_head?_eq {rest others : List Token} {pattern : Pattern}
    (hends : pattern.EndsBefore rest) (hhead : others.head? = rest.head?) :
    pattern.EndsBefore others := by
  cases pattern with
  | constructor name args => trivial
  | atom value =>
      cases value with
      | literal text => trivial
      | identifier name =>
          intro hparen
          exact hends (hhead.symm.trans hparen)

/-- What the reader takes off the front is a pattern that fits into the room. -/
def ReadsWithin (room : Nat) (arg : TokenReader Pattern) : Prop :=
  ∀ {tokens rest : List Token} {pattern : Pattern}, arg.read tokens = .ok (pattern, rest) →
    ∃ front, tokens = front ++ rest ∧ Derives front pattern ∧ pattern.height < room

theorem derives_of_readArgsOnto {arg : TokenReader Pattern} {room : Nat}
    (harg : ReadsWithin room arg) {args result : List Pattern} {tokens rest : List Token}
    (hread : readArgsOnto arg args tokens = .ok (result, rest)) :
    ∃ front more, tokens = front ++ .mark .closeParen :: rest ∧ DerivesArgs front more ∧
      heightArgs more ≤ room ∧ result = args.reverse ++ more := by
  fun_induction readArgsOnto arg args tokens with
  | case1 | case2 | case5 => contradiction
  | case3 args tokens pattern separator inner hread' hrole ih =>
      obtain ⟨front, rfl, hfront, hheight⟩ := harg hread'
      obtain ⟨others, more, rfl, hothers, hheights, rfl⟩ := ih hread
      obtain rfl := Token.role_eq_iff (m := .comma).mp hrole
      refine ⟨front ++ .mark .comma :: others, pattern :: more, by simp,
        DerivesArgs.cons hfront hothers, ?_, by simp⟩
      exact Nat.max_le.mpr ⟨hheight, hheights⟩
  | case4 args tokens pattern separator inner hread' hrole =>
      obtain ⟨front, rfl, hfront, hheight⟩ := harg hread'
      obtain rfl := Token.role_eq_iff (m := .closeParen).mp hrole
      obtain ⟨rfl, rfl⟩ := Prod.mk.inj (Except.ok.inj hread)
      refine ⟨front, [pattern], rfl, .one hfront, ?_, by simp⟩
      exact Nat.max_le.mpr ⟨hheight, Nat.zero_le _⟩

theorem derives_of_readArgs {arg : TokenReader Pattern} {room : Nat}
    (harg : ReadsWithin room arg) (name : String) {args : List Pattern} {tokens rest : List Token}
    (hread : readArgs arg tokens = .ok (args, rest)) :
    ∃ front, .identifier name :: .mark .openParen :: tokens = front ++ rest ∧
      Derives front (.constructor name args) ∧ heightArgs args ≤ room := by
  have hargs : ∀ {tokens : List Token}, readArgsOnto arg [] tokens = .ok (args, rest) →
      ∃ front, .identifier name :: .mark .openParen :: tokens = front ++ rest ∧
        Derives front (.constructor name args) ∧ heightArgs args ≤ room := by
    intro tokens hread
    obtain ⟨front, more, rfl, hmore, hheight, rfl⟩ := derives_of_readArgsOnto harg hread
    exact ⟨_, by simp, Derives.constructor name hmore, hheight⟩
  unfold readArgs at hread
  split at hread
  · exact hargs hread
  · split at hread
    · next hrole =>
      obtain rfl := Token.role_eq_iff (m := .closeParen).mp hrole
      obtain ⟨rfl, rfl⟩ := Prod.mk.inj (Except.ok.inj hread)
      exact ⟨_, by simp, Derives.constant name, Nat.zero_le _⟩
    · exact hargs hread

theorem derives_of_readWith {arg : TokenReader Pattern} {room : Nat}
    (harg : ReadsWithin room arg) {tokens rest : List Token} {pattern : Pattern}
    (hread : readWith arg tokens = .ok (pattern, rest)) :
    (∃ front, tokens = front ++ rest ∧ Derives front pattern ∧ pattern.height < room + 1) ∧
      pattern.EndsBefore rest := by
  revert hread
  fun_cases readWith arg tokens with
  | case1 | case4 | case7 =>
      intro hread
      contradiction
  | case2 token tail hrole =>
      intro hread
      obtain ⟨rfl, rfl⟩ := Prod.mk.inj (Except.ok.inj hread)
      obtain hliteral := Token.eq_literal_of_role hrole
      exact ⟨⟨[token], rfl, hliteral ▸ .atom (.literal token.text), Nat.succ_pos room⟩, trivial⟩
  | case3 token hrole =>
      intro hread
      obtain ⟨rfl, rfl⟩ := Prod.mk.inj (Except.ok.inj hread)
      obtain hname := Token.eq_identifier_of_role hrole
      exact ⟨⟨[token], rfl, hname ▸ .atom (.identifier token.text), Nat.succ_pos room⟩,
        by simp [EndsBefore]⟩
  | case5 token hrole next inner hnext args after hargs =>
      intro hread
      obtain ⟨rfl, rfl⟩ := Prod.mk.inj (Except.ok.inj hread)
      obtain rfl := Token.role_eq_iff (m := .openParen).mp hnext
      obtain ⟨front, hfront, hderives, hheight⟩ := derives_of_readArgs harg token.text hargs
      rw [← Token.eq_identifier_of_role hrole] at hfront
      exact ⟨⟨front, hfront, hderives, Nat.lt_succ_of_le hheight⟩, trivial⟩
  | case6 token hrole next inner hnext =>
      intro hread
      obtain ⟨rfl, rfl⟩ := Prod.mk.inj (Except.ok.inj hread)
      obtain hname := Token.eq_identifier_of_role hrole
      refine ⟨⟨[token], rfl, hname ▸ .atom (.identifier token.text), Nat.succ_pos room⟩, ?_⟩
      apply endsBefore_cons
      rintro rfl
      exact hnext rfl

/-- What the reader reads is a pattern that fits into the room. -/
theorem derives_of_read {limit room : Nat} {tokens rest : List Token} {pattern : Pattern}
    (hread : (reader limit room).read tokens = .ok (pattern, rest)) :
    (∃ front, tokens = front ++ rest ∧ Derives front pattern ∧ pattern.height < room) ∧
      pattern.EndsBefore rest := by
  induction room generalizing tokens rest pattern with
  | zero => contradiction
  | succ room ih => exact derives_of_readWith (fun hread => (ih hread).1) hread

theorem readArgsOnto_eq_bind (arg : TokenReader Pattern) (found : List Pattern)
    (tokens : List Token) :
    readArgsOnto arg found tokens = arg.read tokens >>= fun
      | (_, []) => .error .missing
      | (pattern, separator :: rest) =>
        match separator.role with
        | .comma => readArgsOnto arg (pattern :: found) rest
        | .closeParen => .ok ((pattern :: found).reverse, rest)
        | _ => .error (.unexpected .patternSeparator separator) := by
  rw [readArgsOnto.eq_def]
  split
  · next fault hread => rw [hread]; rfl
  · next pattern hread => rw [hread]; rfl
  · next pattern separator rest hread => rw [hread]; rfl

theorem readWith_constructor (arg : TokenReader Pattern) (name : String)
    (tokens : List Token) :
    readWith arg (.identifier name :: .mark .openParen :: tokens) =
      readArgs arg tokens >>= fun (args, rest) => .ok (.constructor name args, rest) := by
  simp only [readWith, Token.role_identifier, Token.role_mark, Token.Mark.role, if_true]
  cases readArgs arg tokens <;> rfl

theorem readArgsOnto_of_comma {arg : TokenReader Pattern} {pattern : Pattern}
    {tokens rest : List Token} (hread : arg.read tokens = .ok (pattern, .mark .comma :: rest))
    (found : List Pattern) :
    readArgsOnto arg found tokens = readArgsOnto arg (pattern :: found) rest := by
  rw [readArgsOnto_eq_bind, hread]
  rfl

theorem readArgsOnto_of_closeParen {arg : TokenReader Pattern} {pattern : Pattern}
    {tokens rest : List Token}
    (hread : arg.read tokens = .ok (pattern, .mark .closeParen :: rest))
    (found : List Pattern) :
    readArgsOnto arg found tokens = .ok ((pattern :: found).reverse, rest) := by
  rw [readArgsOnto_eq_bind, hread]
  rfl

theorem readWith_of_readArgs {arg : TokenReader Pattern} {args : List Pattern}
    {tokens rest : List Token} (name : String)
    (hargs : readArgs arg tokens = .ok (args, rest)) :
    readWith arg (.identifier name :: .mark .openParen :: tokens) =
      .ok (.constructor name args, rest) := by
  rw [readWith_constructor, hargs]
  rfl

/-- Every pattern begins with a name or a literal. -/
theorem Derives.exists_cons {tokens : List Token} {pattern : Pattern}
    (hderives : Derives tokens pattern) :
    ∃ (value : Atom) (rest : List Token), tokens = value.token :: rest := by
  cases hderives with
  | atom value => exact ⟨value, [], rfl⟩
  | constant name => exact ⟨.identifier name, _, rfl⟩
  | constructor name hargs => exact ⟨.identifier name, _, rfl⟩

theorem DerivesArgs.exists_cons {tokens : List Token} {args : List Pattern}
    (hderives : DerivesArgs tokens args) :
    ∃ (value : Atom) (rest : List Token), tokens = value.token :: rest := by
  cases hderives with
  | one harg => exact harg.exists_cons
  | cons harg hrest =>
      obtain ⟨value, rest, rfl⟩ := harg.exists_cons
      exact ⟨value, _, rfl⟩

theorem readArgs_of_derivesArgs {arg : TokenReader Pattern} {tokens : List Token}
    {args : List Pattern} (hderives : DerivesArgs tokens args) (rest : List Token) :
    readArgs arg (tokens ++ rest) = readArgsOnto arg [] (tokens ++ rest) := by
  obtain ⟨value, others, rfl⟩ := hderives.exists_cons
  cases value <;> rfl

mutual

/-- A pattern that fits into the room is read, whatever follows it. -/
theorem Derives.read_eq (limit : Nat) {room : Nat} {tokens rest : List Token}
    {pattern : Pattern} :
    Derives tokens pattern → pattern.height < room → pattern.EndsBefore rest →
      (reader limit room).read (tokens ++ rest) = .ok (pattern, rest)
  | .atom value, hroom, hends => by
      obtain ⟨room, rfl⟩ := Nat.exists_eq_add_one_of_ne_zero (Nat.ne_zero_of_lt hroom)
      cases value with
      | literal text => rfl
      | identifier name =>
          cases rest with
          | nil => rfl
          | cons next rest =>
              have hnext : next.role ≠ .openParen := Token.role_ne_of_head?_ne hends
              show readWith (reader limit room) (.identifier name :: next :: rest) = _
              simp [readWith, hnext]
  | .constant name, hroom, _ => by
      obtain ⟨room, rfl⟩ := Nat.exists_eq_add_one_of_ne_zero (Nat.ne_zero_of_lt hroom)
      rfl
  | .constructor name hargs, hroom, _ => by
      obtain ⟨room, rfl⟩ := Nat.exists_eq_add_one_of_ne_zero (Nat.ne_zero_of_lt hroom)
      have hread := hargs.readArgsOnto_eq limit [] rest (Nat.le_of_lt_succ hroom)
      rw [← readArgs_of_derivesArgs hargs] at hread
      rw [List.cons_append, List.cons_append, List.append_assoc, List.singleton_append]
      exact readWith_of_readArgs name hread

theorem DerivesArgs.readArgsOnto_eq (limit : Nat) {room : Nat} {tokens : List Token}
    {args : List Pattern} (found : List Pattern) (rest : List Token) :
    DerivesArgs tokens args → heightArgs args ≤ room →
      readArgsOnto (reader limit room) found (tokens ++ .mark .closeParen :: rest) =
        .ok (found.reverse ++ args, rest)
  | .one harg, hroom => by
      have hheight := (Nat.max_le.mp hroom).1
      rw [readArgsOnto_of_closeParen
        (harg.read_eq limit hheight (endsBefore_cons (by simp) rest _)), List.reverse_cons]
  | .cons harg hrest, hroom => by
      obtain ⟨hheight, hheights⟩ := Nat.max_le.mp hroom
      rw [List.append_assoc, List.cons_append, readArgsOnto_of_comma
        (harg.read_eq limit hheight (endsBefore_cons (by simp) _ _)),
        hrest.readArgsOnto_eq limit _ rest hheights]
      simp

end

theorem read_eq_ok_iff {limit room : Nat} {tokens rest : List Token} {pattern : Pattern} :
    (reader limit room).read tokens = .ok (pattern, rest) ↔
      (∃ front, tokens = front ++ rest ∧ Derives front pattern ∧ pattern.height < room) ∧
        pattern.EndsBefore rest := by
  constructor
  · exact derives_of_read
  · rintro ⟨⟨front, rfl, hderives, hheight⟩, hends⟩
    exact hderives.read_eq limit hheight hends

end Dataflow.Pattern
