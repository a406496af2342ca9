import Dataflow.Proofs.Reading.Statement

/-!
# Room only gates

A reader that is given more room answers the same, unless the room that it had
was used up.  This is shown for each reader from the readers that it calls, so
that a refusal for any other reason holds for every nesting limit that is not
smaller.
-/

namespace Dataflow

/-- The nesting limit is used up. -/
def Fault.IsTooDeep : Fault → Prop
  | .tooDeep _ _ => True
  | _ => False

/-- The second outcome is the first, unless the first is that the room is used
up. -/
def Gated {α : Type} (small large : Except Fault α) : Prop :=
  (∃ fault, small = .error fault ∧ fault.IsTooDeep) ∨ large = small

namespace Gated

variable {α β : Type}

theorem refl (outcome : Except Fault α) : Gated outcome outcome := .inr rfl

theorem tooDeep (limit : Nat) (found : Option Token) (large : Except Fault α) :
    Gated (.error (.tooDeep limit found)) large :=
  .inl ⟨_, rfl, trivial⟩

theorem eq_ok {large : Except Fault α} {value : α} (hgated : Gated (.ok value) large) :
    large = .ok value := by
  rcases hgated with ⟨fault, hfault, -⟩ | heq
  · contradiction
  · exact heq

theorem eq_error {large : Except Fault α} {fault : Fault} (hgated : Gated (.error fault) large)
    (hfault : ¬ fault.IsTooDeep) : large = .error fault := by
  rcases hgated with ⟨other, hother, hdeep⟩ | heq
  · rw [Except.error.inj hother] at hfault
    contradiction
  · exact heq

theorem error_bind {large : Except Fault α} {fault : Fault} {next : α → Except Fault β}
    (hgated : Gated (.error fault) large) : Gated (.error fault) (large >>= next) := by
  by_cases hdeep : fault.IsTooDeep
  · exact .inl ⟨fault, rfl, hdeep⟩
  · rw [hgated.eq_error hdeep]
    exact refl _

/-- An outcome that only depends on a gated one is gated. -/
theorem bind {small large : Except Fault α} {next next' : α → Except Fault β}
    (hgated : Gated small large)
    (hnext : ∀ value, small = .ok value → Gated (next value) (next' value)) :
    Gated (small >>= next) (large >>= next') := by
  cases small with
  | ok value =>
      rw [hgated.eq_ok]
      exact hnext value rfl
  | error fault => exact hgated.error_bind

end Gated

/-- The first reader has at least the room of the second. -/
def TokenReader.GatedBy {α : Type} (large small : TokenReader α) : Prop :=
  ∀ tokens, Gated (small.read tokens) (large.read tokens)

theorem TokenReader.gatedBy_tooDeep {α : Type} (limit : Nat) (large : TokenReader α) :
    large.GatedBy (tooDeep limit) :=
  fun _ => Gated.tooDeep limit _ _

namespace Pattern

variable {arg arg' : TokenReader Pattern}

theorem gated_readArgsOnto (harg : arg'.GatedBy arg) (found : List Pattern)
    (tokens : List Token) :
    Gated (readArgsOnto arg found tokens) (readArgsOnto arg' found tokens) := by
  rw [readArgsOnto_eq_bind, readArgsOnto_eq_bind]
  apply (harg tokens).bind
  rintro ⟨pattern, rest⟩ hread
  cases rest with
  | nil => exact .refl _
  | cons separator rest =>
      have hlt := Nat.lt_of_succ_lt (arg.shrinks hread)
      dsimp only
      split
      · exact gated_readArgsOnto harg (pattern :: found) rest
      · exact .refl _
      · exact .refl _
termination_by tokens.length

theorem gated_readArgs (harg : arg'.GatedBy arg) (tokens : List Token) :
    Gated (readArgs arg tokens) (readArgs arg' tokens) := by
  cases tokens with
  | nil => exact gated_readArgsOnto harg [] []
  | cons token rest =>
      rw [readArgs, readArgs]
      split
      · exact .refl _
      · exact gated_readArgsOnto harg [] (token :: rest)

theorem gated_readWith (harg : arg'.GatedBy arg) (tokens : List Token) :
    Gated (readWith arg tokens) (readWith arg' tokens) := by
  have hsame : readWith arg' tokens = readWith arg tokens ∨ ∃ name rest,
      tokens = .identifier name :: .mark .openParen :: rest := by
    fun_cases readWith arg tokens with
    | case4 token hrole next inner hnext | case5 token hrole next inner hnext =>
        rw [Token.eq_identifier_of_role hrole, Token.role_eq_iff (m := .openParen).mp hnext]
        exact .inr ⟨_, _, rfl⟩
    | case1 | case2 | case3 | case6 | case7 => exact .inl (by simp_all [readWith])
  rcases hsame with heq | ⟨name, rest, rfl⟩
  · exact .inr heq
  · rw [readWith_constructor, readWith_constructor]
    exact (gated_readArgs harg rest).bind fun _ _ => .refl _

theorem gatedBy_reader (limit limit' : Nat) {room room' : Nat} (hroom : room ≤ room') :
    (reader limit' room').GatedBy (reader limit room) := by
  induction room generalizing room' with
  | zero => exact TokenReader.gatedBy_tooDeep limit _
  | succ room ih =>
      cases room' with
      | zero => contradiction
      | succ room' =>
          intro tokens
          exact gated_readWith (ih (Nat.le_of_succ_le_succ hroom)) tokens

end Pattern

namespace Expr

variable {map map' : TokenReader (List (Pattern × Expr))} {ends : Token → Bool}

theorem gated_readStepsOnto (hmap : map'.GatedBy map) (found : List Expr)
    (tokens : List Token) :
    Gated (readStepsOnto map ends found tokens) (readStepsOnto map' ends found tokens) := by
  fun_induction readStepsOnto map ends found tokens with
  | case1 found =>
      rw [readStepsOnto.eq_def]
      exact .refl _
  | case2 | case3 | case4 | case13 =>
      right
      rw [readStepsOnto.eq_def]
      simp_all
  | case5 found token _ hrole next after _ ih =>
      rw [readStepsOnto.eq_def map' ends found (token :: next :: after)]
      simp_all
  | case6 found token rest hends hrole fault hread =>
      obtain rfl := Token.role_eq_iff (m := .openBrace).mp hrole
      have hgated := hmap (.mark .openBrace :: rest)
      rw [hread] at hgated
      rw [readStepsOnto_map_eq_bind (by simpa using hends)]
      exact hgated.error_bind
  | case7 found token rest hends hrole entries after hread ih =>
      obtain rfl := Token.role_eq_iff (m := .openBrace).mp hrole
      have hgated := hmap (.mark .openBrace :: rest)
      rw [hread] at hgated
      rw [readStepsOnto_map_eq_bind (by simpa using hends), hgated.eq_ok]
      exact ih
  | case8 | case11 | case12 =>
      rw [readStepsOnto.eq_def map']
      simp_all
  | case9 found token hends hrole next inner hnext fault hread =>
      obtain rfl := Token.role_eq_iff (m := .openParen).mp hnext
      have hname := ends_identifier_eq_false hrole hends
      rw [Token.eq_identifier_of_role hrole, readStepsOnto_config_eq_bind hname, hread]
      exact .refl _
  | case10 found token hends hrole next inner hnext settings after hread ih =>
      obtain rfl := Token.role_eq_iff (m := .openParen).mp hnext
      have hname := ends_identifier_eq_false hrole hends
      rw [Token.eq_identifier_of_role hrole, readStepsOnto_config_eq_bind hname, hread]
      exact ih

theorem gated_readEntriesOnto {key key' : TokenReader Pattern} {value value' : TokenReader Expr}
    (hkey : key'.GatedBy key) (hvalue : value'.GatedBy value)
    (found : List (Pattern × Expr)) (tokens : List Token) :
    Gated (readEntriesOnto key value found tokens) (readEntriesOnto key' value' found tokens) := by
  rw [readEntriesOnto_eq_bind, readEntriesOnto_eq_bind]
  apply (hkey tokens).bind
  rintro ⟨pattern, rest⟩ hpattern
  have hltKey := key.shrinks hpattern
  cases rest with
  | nil => exact .refl _
  | cons colon afterColon =>
      simp only [readAfterKey]
      split
      · exact .refl _
      · apply (hvalue afterColon).bind
        rintro ⟨expr, rest⟩ hexpr
        have hltValue := value.shrinks hexpr
        cases rest with
        | nil => exact .refl _
        | cons separator rest =>
            simp only [readAfterEntry]
            split
            · exact .refl _
            · exact gated_readEntriesOnto hkey hvalue ((pattern, expr) :: found) rest
termination_by tokens.length
decreasing_by
  simp only [List.length_cons] at *
  omega

theorem gated_readMapWith {key key' : TokenReader Pattern} {value value' : TokenReader Expr}
    (hkey : key'.GatedBy key) (hvalue : value'.GatedBy value) (tokens : List Token) :
    Gated (readMapWith key value tokens) (readMapWith key' value' tokens) := by
  rw [readMapWith, readMapWith]
  split
  · exact .refl _
  · exact gated_readEntriesOnto hkey hvalue [] []
  · split
    · exact .refl _
    · exact gated_readEntriesOnto hkey hvalue [] _

theorem gatedBy_room (limit limit' : Nat) {room room' : Nat} (hroom : room ≤ room') :
    (∀ ends, (flowReader limit' ends room').GatedBy (flowReader limit ends room)) ∧
      (mapReader limit' room').GatedBy (mapReader limit room) := by
  induction room generalizing room' with
  | zero =>
      constructor
      · exact fun ends => TokenReader.gatedBy_tooDeep limit (flowReader limit' ends room')
      · exact TokenReader.gatedBy_tooDeep limit (mapReader limit' room')
  | succ room ih =>
      cases room' with
      | zero => contradiction
      | succ room' =>
          have hle := Nat.le_of_succ_le_succ hroom
          obtain ⟨hflow, hmap⟩ := ih hle
          constructor
          · intro ends tokens
            exact gated_readStepsOnto hmap [] tokens
          · intro tokens
            exact gated_readMapWith (Pattern.gatedBy_reader limit limit' hle)
              (hflow Token.endsEntry) tokens

end Expr

theorem Assignment.gated_read (limit limit' : Nat) {room room' : Nat} (hroom : room ≤ room')
    (tokens : List Token) :
    Gated (Assignment.read limit room tokens) (Assignment.read limit' room' tokens) := by
  cases room with
  | zero => exact .tooDeep limit _ _
  | succ room =>
      cases room' with
      | zero => contradiction
      | succ room' =>
          have hflow := (Expr.gatedBy_room limit limit' (Nat.le_of_succ_le_succ hroom)).1
          apply (Gated.refl _).bind
          rintro ⟨name, rest⟩ -
          apply (Gated.refl _).bind
          rintro ⟨signature, rest⟩ -
          apply (Gated.refl _).bind
          rintro ⟨equals, rest⟩ -
          dsimp only
          split
          · exact .refl _
          · exact (hflow _ rest).bind fun _ _ => .refl _

namespace Statement

theorem gated_readImport (limit limit' : Nat) {room room' : Nat} (hroom : room ≤ room')
    (keyword : Token) (tokens : List Token) :
    Gated (readImport limit room keyword tokens) (readImport limit' room' keyword tokens) := by
  cases room with
  | zero => exact .tooDeep limit _ _
  | succ room =>
      cases room' with
      | zero => contradiction
      | succ room' => exact .refl _

theorem gated_readExport (limit limit' : Nat) {room room' : Nat} (hroom : room ≤ room')
    (keyword : Token) (tokens : List Token) :
    Gated (readExport limit room keyword tokens) (readExport limit' room' keyword tokens) := by
  cases room with
  | zero => exact .tooDeep limit _ _
  | succ room =>
      cases room' with
      | zero => contradiction
      | succ room' =>
          have hread := Assignment.gated_read limit limit' (Nat.le_of_succ_le_succ hroom) tokens
          rw [readExport, readExport]
          split
          · exact .refl _
          · exact hread.bind fun _ _ => .refl _

/-- A statement that is refused for another reason than its depth is refused for
the same reason under a larger limit. -/
theorem gated_read {limit limit' : Nat} (hlimit : limit ≤ limit') (tokens : List Token) :
    Gated (read limit tokens) (read limit' tokens) := by
  cases limit with
  | zero => exact .tooDeep 0 _ _
  | succ room =>
      cases limit' with
      | zero => contradiction
      | succ room' =>
          have hroom := Nat.le_of_succ_le_succ hlimit
          cases tokens with
          | nil => exact .refl _
          | cons first rest =>
              rw [read, read]
              split
              · exact gated_readImport _ _ hroom first rest
              · exact gated_readExport _ _ hroom first rest
              · exact (Assignment.gated_read _ _ hroom (first :: rest)).bind fun _ _ => .refl _
              · exact .refl _

end Statement

end Dataflow
