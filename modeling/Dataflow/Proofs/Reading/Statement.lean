import Dataflow.Proofs.Reading.Flow
import Dataflow.Syntax.Statement

/-!
# What the statement reader reads

The tokens of a run are read as a statement exactly when they derive it and its
depth stays below the limit.
-/

namespace Dataflow

theorem bind_eq_ok_iff {α β : Type} {first : Except Fault α} {next : α → Except Fault β}
    {result : β} :
    first >>= next = .ok result ↔ ∃ value, first = .ok value ∧ next value = .ok result := by
  cases first with
  | error fault =>
      constructor
      · intro hread
        contradiction
      · rintro ⟨value, hvalue, -⟩
        contradiction
  | ok value =>
      constructor
      · intro hread
        exact ⟨value, rfl, hread⟩
      · rintro ⟨other, hother, hread⟩
        rwa [← Except.ok.inj hother] at hread

theorem bind_eq_error_iff {α β : Type} {first : Except Fault α}
    {next : α → Except Fault β} {fault : Fault} :
    first >>= next = .error fault ↔
      first = .error fault ∨ ∃ value, first = .ok value ∧ next value = .error fault := by
  cases first with
  | error other =>
      constructor
      · intro herror
        exact .inl (congrArg Except.error (Except.error.inj herror))
      · rintro (herror | ⟨value, hvalue, -⟩)
        · exact congrArg Except.error (Except.error.inj herror)
        · contradiction
  | ok value =>
      constructor
      · intro herror
        exact .inr ⟨value, rfl, herror⟩
      · rintro (herror | ⟨other, hother, herror⟩)
        · contradiction
        · rwa [← Except.ok.inj hother] at herror

theorem bind_ok_eq_error_iff {α β : Type} {first : Except Fault α} {finish : α → β}
    {fault : Fault} :
    (first >>= fun value => .ok (finish value)) = .error fault ↔ first = .error fault := by
  rw [bind_eq_error_iff]
  exact or_iff_left nofun

theorem expectRole_bind_eq_ok_iff {β : Type} {role : Token.Role} {expected : Expectation}
    {tokens : List Token} {next : Token × List Token → Except Fault β} {result : β} :
    expectRole role expected tokens >>= next = .ok result ↔
      ∃ token rest, tokens = token :: rest ∧ token.role = role ∧
        next (token, rest) = .ok result := by
  rw [bind_eq_ok_iff]
  constructor
  · rintro ⟨⟨token, rest⟩, htoken, hnext⟩
    obtain ⟨rfl, hrole⟩ := expectRole_eq_ok_iff.mp htoken
    exact ⟨token, rest, rfl, hrole, hnext⟩
  · rintro ⟨token, rest, rfl, hrole, hnext⟩
    exact ⟨(token, rest), expectRole_eq_ok_iff.mpr ⟨rfl, hrole⟩, hnext⟩

namespace Signature

/-- A single type is all there is only where no arrow follows it. -/
def EndsBefore (rest : List Token) : Signature → Prop
  | .simple _ => rest.head? ≠ some (.mark .arrow)
  | .flow _ _ => True

theorem derives_of_read {tokens rest : List Token} {signature : Signature}
    (hread : read tokens = .ok (signature, rest)) :
    ∃ front, tokens = front ++ rest ∧ Derives front signature := by
  obtain ⟨base, others, rfl, hbase, hbody⟩ := expectRole_bind_eq_ok_iff.mp hread
  have hbase := Token.eq_identifier_of_role hbase
  cases others with
  | nil =>
      obtain ⟨rfl, rfl⟩ := Prod.mk.inj (Except.ok.inj hbody)
      exact ⟨[base], rfl, hbase ▸ .simple base.text⟩
  | cons next after =>
      by_cases harrow : next.role = .arrow
      · simp only [harrow, if_true] at hbody
        obtain ⟨output, others, rfl, houtput, hbody⟩ := expectRole_bind_eq_ok_iff.mp hbody
        have houtput := Token.eq_identifier_of_role houtput
        obtain ⟨rfl, rfl⟩ := Prod.mk.inj (Except.ok.inj hbody)
        obtain rfl := Token.role_eq_iff (m := .arrow).mp harrow
        refine ⟨[base, .mark .arrow, output], rfl, ?_⟩
        rw [hbase, houtput]
        exact .flow base.text output.text
      · simp only [harrow, if_false] at hbody
        obtain ⟨rfl, rfl⟩ := Prod.mk.inj (Except.ok.inj hbody)
        exact ⟨[base], rfl, hbase ▸ .simple base.text⟩

theorem Derives.read_eq {tokens rest : List Token} {signature : Signature}
    (hderives : Derives tokens signature) (hends : signature.EndsBefore rest) :
    read (tokens ++ rest) = .ok (signature, rest) := by
  cases hderives with
  | flow input output => rfl
  | simple name =>
      cases rest with
      | nil => rfl
      | cons next rest =>
          have hnext : next.role ≠ .arrow := Token.role_ne_of_head?_ne hends
          apply expectRole_bind_eq_ok_iff.mpr
          exact ⟨_, _, rfl, rfl, if_neg hnext⟩

end Signature

namespace Assignment

/-- What is read as the type that may be declared: nothing before a token other
than a colon, or a colon and a type. -/
theorem readSignature_cases {tokens rest : List Token} {signature : Option Signature}
    (hread : readSignature tokens = .ok (signature, rest)) :
    (signature = none ∧ rest = tokens) ∨
      ∃ front declared, signature = some declared ∧
        tokens = .mark .colon :: (front ++ rest) ∧ Signature.Derives front declared := by
  unfold readSignature at hread
  split at hread
  · contradiction
  · next next others =>
    split at hread
    · next hcolon =>
      obtain ⟨⟨declared, after⟩, hdeclared, hbody⟩ := bind_eq_ok_iff.mp hread
      obtain ⟨rfl, rfl⟩ := Prod.mk.inj (Except.ok.inj hbody)
      obtain ⟨front, rfl, hderives⟩ := Signature.derives_of_read hdeclared
      obtain rfl := Token.role_eq_iff (m := .colon).mp hcolon
      exact .inr ⟨front, declared, rfl, rfl, hderives⟩
    · obtain ⟨rfl, rfl⟩ := Prod.mk.inj (Except.ok.inj hread)
      exact .inl ⟨rfl, rfl⟩

theorem derives_of_read {limit room : Nat} {tokens : List Token} {assignment : Assignment}
    (hread : read limit room tokens = .ok assignment) :
    Derives tokens assignment ∧ assignment.value.height + 1 < room := by
  cases room with
  | zero => contradiction
  | succ room =>
    obtain ⟨name, others, rfl, hname, hbody⟩ := expectRole_bind_eq_ok_iff.mp hread
    obtain ⟨⟨signature, afterType⟩, hsignature, hbody⟩ := bind_eq_ok_iff.mp hbody
    obtain ⟨equals, tokens, rfl, hequals, hbody⟩ := expectRole_bind_eq_ok_iff.mp hbody
    obtain rfl := Token.role_eq_iff (m := .equals).mp hequals
    have hname := Token.eq_identifier_of_role hname
    cases tokens with
    | nil => contradiction
    | cons first tokens =>
      obtain ⟨⟨value, rest⟩, hvalue, hbody⟩ := bind_eq_ok_iff.mp hbody
      obtain rfl := Except.ok.inj hbody
      obtain ⟨⟨front, hfront, hderives, hheight⟩, hstops⟩ :=
        (Expr.flowReader_eq_ok_iff Expr.endsLikeEntry_never).mp hvalue
      rw [Expr.stopsAt_never_iff.mp hstops, List.append_nil] at hfront
      rw [hfront] at hsignature
      refine ⟨?_, Nat.succ_lt_succ hheight⟩
      rcases readSignature_cases hsignature with ⟨rfl, rfl⟩ | ⟨front, declared, rfl, rfl, htype⟩
      · rw [hname]
        exact .untyped name.text hderives
      · rw [hname]
        exact .typed name.text htype hderives

theorem readSignature_of_derives {front rest : List Token} {declared : Signature}
    (hderives : Signature.Derives front declared) :
    readSignature (.mark .colon :: (front ++ .mark .equals :: rest)) =
      .ok (some declared, .mark .equals :: rest) := by
  have hends : declared.EndsBefore (.mark .equals :: rest) := by
    cases declared <;> simp [Signature.EndsBefore]
  have hread := hderives.read_eq hends
  exact bind_eq_ok_iff.mpr ⟨_, hread, rfl⟩

theorem Derives.read_eq (limit : Nat) {room : Nat} {tokens : List Token}
    {assignment : Assignment} (hderives : Derives tokens assignment)
    (hroom : assignment.value.height + 1 < room) :
    read limit room tokens = .ok assignment := by
  obtain ⟨room, rfl⟩ := Nat.exists_eq_add_one_of_ne_zero (Nat.ne_zero_of_lt hroom)
  have hbody : ∀ {name : String} {signature : Option Signature} {tokens others : List Token}
      {value : Expr}, Expr.Derives tokens value → value.height < room →
      readSignature others = .ok (signature, .mark .equals :: tokens) →
      read limit (room + 1) (.identifier name :: others) = .ok ⟨name, signature, value⟩ := by
    intro name signature tokens others value hvalue hheight hsignature
    have hread := hvalue.read_eq limit Expr.endsLikeEntry_never hheight
      (Expr.stopsAt_never_iff.mpr rfl)
    rw [List.append_nil] at hread
    apply expectRole_bind_eq_ok_iff.mpr
    refine ⟨_, _, rfl, rfl, bind_eq_ok_iff.mpr ⟨_, hsignature, ?_⟩⟩
    apply expectRole_bind_eq_ok_iff.mpr
    refine ⟨_, _, rfl, rfl, ?_⟩
    have hempty : ¬ tokens.isEmpty = true := by simpa using hvalue.ne_nil
    exact (if_neg hempty).trans (bind_eq_ok_iff.mpr ⟨_, hread, rfl⟩)
  cases hderives with
  | untyped name hvalue => exact hbody hvalue (Nat.lt_of_succ_lt_succ hroom) rfl
  | typed name htype hvalue =>
      exact hbody hvalue (Nat.lt_of_succ_lt_succ hroom) (readSignature_of_derives htype)

theorem read_eq_ok_iff {limit room : Nat} {tokens : List Token} {assignment : Assignment} :
    read limit room tokens = .ok assignment ↔
      Derives tokens assignment ∧ assignment.value.height + 1 < room := by
  constructor
  · exact derives_of_read
  · rintro ⟨hderives, hroom⟩
    exact hderives.read_eq limit hroom

end Assignment

namespace Statement

theorem readImport_eq_ok_iff {limit room : Nat} {keyword : Token} {tokens : List Token}
    {statement : Statement} :
    readImport limit room keyword tokens = .ok statement ↔
      0 < room ∧ ∃ name front signature, tokens = .identifier name :: .mark .colon :: front ∧
        Signature.Derives front signature ∧ statement = .importName name signature := by
  cases room with
  | zero => simp [readImport]
  | succ room =>
    constructor
    · intro hread
      refine ⟨Nat.succ_pos room, ?_⟩
      simp only [readImport] at hread
      split at hread
      · contradiction
      · obtain ⟨name, others, rfl, hname, hbody⟩ := expectRole_bind_eq_ok_iff.mp hread
        obtain ⟨colon, others, rfl, hcolon, hbody⟩ := expectRole_bind_eq_ok_iff.mp hbody
        obtain ⟨⟨signature, rest⟩, hsignature, hbody⟩ := bind_eq_ok_iff.mp hbody
        obtain ⟨front, rfl, hderives⟩ := Signature.derives_of_read hsignature
        obtain rfl := Token.role_eq_iff (m := .colon).mp hcolon
        have hname := Token.eq_identifier_of_role hname
        cases rest with
        | cons next rest => contradiction
        | nil =>
            rw [hname, List.append_nil]
            exact ⟨name.text, front, signature, rfl, hderives, (Except.ok.inj hbody).symm⟩
    · rintro ⟨-, name, front, signature, rfl, hderives, rfl⟩
      have hends : signature.EndsBefore [] := by
        cases signature <;> simp [Signature.EndsBefore]
      have hread := hderives.read_eq hends
      have hlength : ¬ ((Token.identifier name :: .mark .colon :: front).length ≠ 3 ∧
          (Token.identifier name :: .mark .colon :: front).length ≠ 5) := by
        cases hderives <;> simp
      rw [List.append_nil] at hread
      refine (if_neg hlength).trans (expectRole_bind_eq_ok_iff.mpr ⟨_, _, rfl, rfl, ?_⟩)
      apply expectRole_bind_eq_ok_iff.mpr
      exact ⟨_, _, rfl, rfl, bind_eq_ok_iff.mpr ⟨_, hread, rfl⟩⟩

theorem readExport_eq_ok_iff {limit room : Nat} {keyword : Token} {tokens : List Token}
    {statement : Statement} :
    readExport limit room keyword tokens = .ok statement ↔
      ∃ assignment, Assignment.Derives tokens assignment ∧
        assignment.value.height + 2 < room ∧ statement = .exportFlow assignment := by
  cases room with
  | zero => simp [readExport]
  | succ room =>
    constructor
    · intro hread
      simp only [readExport] at hread
      split at hread
      · contradiction
      · obtain ⟨assignment, hassignment, hbody⟩ := bind_eq_ok_iff.mp hread
        obtain ⟨hderives, hroom⟩ := Assignment.read_eq_ok_iff.mp hassignment
        exact ⟨assignment, hderives, Nat.succ_lt_succ hroom, (Except.ok.inj hbody).symm⟩
    · rintro ⟨assignment, hderives, hroom, rfl⟩
      have hread := hderives.read_eq limit (Nat.lt_of_succ_lt_succ hroom)
      have hempty : ¬ tokens.isEmpty = true := by
        cases hderives <;> simp
      exact (if_neg hempty).trans (bind_eq_ok_iff.mpr ⟨_, hread, rfl⟩)

theorem derives_of_read {limit : Nat} {tokens : List Token} {statement : Statement}
    (hread : read limit tokens = .ok statement) :
    Derives tokens statement ∧ statement.depth < limit := by
  unfold read at hread
  split at hread
  · contradiction
  · split at hread
    · obtain rfl := Except.ok.inj hread
      exact ⟨.empty, Nat.succ_pos _⟩
    · split at hread
      · next hrole =>
        obtain ⟨hroom, name, front, signature, rfl, hderives, rfl⟩ :=
          readImport_eq_ok_iff.mp hread
        obtain rfl := Token.role_eq_iff (m := .importWord).mp hrole
        exact ⟨.importName name hderives, Nat.succ_lt_succ hroom⟩
      · next hrole =>
        obtain ⟨assignment, hderives, hroom, rfl⟩ := readExport_eq_ok_iff.mp hread
        obtain rfl := Token.role_eq_iff (m := .exportWord).mp hrole
        exact ⟨.exportFlow hderives, Nat.succ_lt_succ hroom⟩
      · obtain ⟨assignment, hassignment, hbody⟩ := bind_eq_ok_iff.mp hread
        obtain ⟨hderives, hroom⟩ := Assignment.read_eq_ok_iff.mp hassignment
        obtain rfl := Except.ok.inj hbody
        exact ⟨.assign hderives, Nat.succ_lt_succ hroom⟩
      · contradiction

theorem Derives.read_eq {limit : Nat} {tokens : List Token} {statement : Statement}
    (hderives : Derives tokens statement) (hdepth : statement.depth < limit) :
    read limit tokens = .ok statement := by
  obtain ⟨room, rfl⟩ := Nat.exists_eq_add_one_of_ne_zero (Nat.ne_zero_of_lt hdepth)
  cases hderives with
  | empty => rfl
  | importName name htype =>
      apply readImport_eq_ok_iff.mpr
      exact ⟨Nat.lt_of_succ_lt_succ hdepth, name, _, _, rfl, htype, rfl⟩
  | exportFlow hassignment =>
      apply readExport_eq_ok_iff.mpr
      exact ⟨_, hassignment, Nat.lt_of_succ_lt_succ hdepth, rfl⟩
  | assign hassignment =>
      have hread := hassignment.read_eq (room + 1) (Nat.lt_of_succ_lt_succ hdepth)
      cases hassignment <;> exact bind_eq_ok_iff.mpr ⟨_, hread, rfl⟩

/-- A run is read as the statement that it derives, if that is not too deep. -/
theorem read_eq_ok_iff {limit : Nat} {tokens : List Token} {statement : Statement} :
    read limit tokens = .ok statement ↔
      Derives tokens statement ∧ statement.depth < limit := by
  constructor
  · exact derives_of_read
  · rintro ⟨hderives, hdepth⟩
    exact hderives.read_eq hdepth

end Statement

end Dataflow
