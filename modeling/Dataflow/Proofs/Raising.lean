import Dataflow.Proofs.Reading.Statement

/-!
# Where faults arise

Whatever a reader refuses, the token that it blames is one of the tokens that it
was given, and a refusal for the depth names the limit.  Each reader also hands on
only tokens that it was given, so that this passes from a part of a statement to
the whole.
-/

namespace Dataflow

/-- The fault blames none but these tokens, and names this limit. -/
inductive Fault.ArisesIn (limit : Nat) (tokens : List Token) : Fault → Prop where
  | tooDeep {found : Option Token} (hfound : ∀ token, found = some token → token ∈ tokens) :
      ArisesIn limit tokens (.tooDeep limit found)
  | unexpected {token : Token} (expected : Expectation) (hmem : token ∈ tokens) :
      ArisesIn limit tokens (.unexpected expected token)
  | badPropertyValue {token : Token} (hmem : token ∈ tokens) :
      ArisesIn limit tokens (.badPropertyValue token)
  | missing : ArisesIn limit tokens .missing
  | configEnded (expected : Expectation) : ArisesIn limit tokens (.configEnded expected)
  | danglingArrow (hmem : .mark .arrow ∈ tokens) :
      ArisesIn limit tokens (.danglingArrow (.mark .arrow))
  | importLength {keyword : Token} (count : Nat) (hmem : keyword ∈ tokens) :
      ArisesIn limit tokens (.importLength keyword count)

namespace Fault.ArisesIn

variable {limit : Nat} {tokens : List Token} {fault : Fault}

theorem mono {others : List Token} (hfault : fault.ArisesIn limit tokens)
    (hsub : tokens ⊆ others) : fault.ArisesIn limit others := by
  cases hfault with
  | tooDeep hfound => exact .tooDeep fun token htoken => hsub (hfound token htoken)
  | unexpected expected hmem => exact .unexpected expected (hsub hmem)
  | badPropertyValue hmem => exact .badPropertyValue (hsub hmem)
  | missing => exact .missing
  | configEnded expected => exact .configEnded expected
  | danglingArrow hmem => exact .danglingArrow (hsub hmem)
  | importLength count hmem => exact .importLength count (hsub hmem)

theorem mem_of_found? {token : Token} (hfault : fault.ArisesIn limit tokens)
    (hfound : fault.found? = some token) : token ∈ tokens := by
  cases hfault with
  | tooDeep htokens => exact htokens token hfound
  | missing => contradiction
  | configEnded expected => contradiction
  | unexpected expected hmem | badPropertyValue hmem | danglingArrow hmem
  | importLength count hmem => exact Option.some.inj hfound ▸ hmem

theorem level_eq {level : Nat} {found : Option Token}
    (hfault : Fault.ArisesIn limit tokens (.tooDeep level found)) : level = limit := by
  cases hfault
  rfl

end Fault.ArisesIn

/-! ## Outcomes -/

/-- Every fault arises in these tokens. -/
def RefusesIn {α : Type} (limit : Nat) (tokens : List Token) (outcome : Except Fault α) : Prop :=
  ∀ fault, outcome = .error fault → fault.ArisesIn limit tokens

/-- A fault arises in these tokens, and only such tokens are left otherwise. -/
inductive StaysIn {α : Type} (limit : Nat) (tokens : List Token) :
    Except Fault (α × List Token) → Prop where
  | ok (value : α) {rest : List Token} (hrest : rest ⊆ tokens) :
      StaysIn limit tokens (.ok (value, rest))
  | error {fault : Fault} (hfault : fault.ArisesIn limit tokens) :
      StaysIn limit tokens (.error fault)

section Outcomes

variable {α β : Type} {limit : Nat} {tokens : List Token}

theorem RefusesIn.ok (value : α) : RefusesIn limit tokens (.ok value) := nofun

theorem RefusesIn.error {fault : Fault} (hfault : fault.ArisesIn limit tokens) :
    RefusesIn (α := α) limit tokens (.error fault) := by
  intro other herror
  exact Except.error.inj herror ▸ hfault

theorem RefusesIn.mono {others : List Token} {outcome : Except Fault α}
    (houtcome : RefusesIn limit tokens outcome) (hsub : tokens ⊆ others) :
    RefusesIn limit others outcome :=
  fun fault herror => (houtcome fault herror).mono hsub

theorem RefusesIn.bind_ok {first : Except Fault α} {finish : α → β}
    (hfirst : RefusesIn limit tokens first) :
    RefusesIn limit tokens (first >>= fun value => .ok (finish value)) :=
  fun fault herror => hfirst fault (bind_ok_eq_error_iff.mp herror)

namespace StaysIn

variable {first : Except Fault (α × List Token)}

theorem mono {others : List Token} (hfirst : StaysIn limit tokens first)
    (hsub : tokens ⊆ others) : StaysIn limit others first := by
  cases hfirst with
  | ok value hrest => exact .ok value (List.Subset.trans hrest hsub)
  | error hfault => exact .error (hfault.mono hsub)

theorem cons (token : Token) (hfirst : StaysIn limit tokens first) :
    StaysIn limit (token :: tokens) first :=
  hfirst.mono (List.subset_cons_self token tokens)

theorem arisesIn {fault : Fault} (hfirst : StaysIn limit tokens first)
    (herror : first = .error fault) : fault.ArisesIn limit tokens := by
  cases hfirst with
  | ok value hrest => contradiction
  | error hfault => exact Except.error.inj herror ▸ hfault

theorem subset {value : α} {rest : List Token} (hfirst : StaysIn limit tokens first)
    (hread : first = .ok (value, rest)) : rest ⊆ tokens := by
  cases hfirst with
  | ok value hrest =>
      obtain ⟨-, rfl⟩ := Prod.mk.inj (Except.ok.inj hread)
      exact hrest
  | error hfault => contradiction

/-- What is read next only sees the tokens that are left. -/
theorem bind {next : α × List Token → Except Fault (β × List Token)}
    (hfirst : StaysIn limit tokens first)
    (hnext : ∀ value rest, first = .ok (value, rest) → StaysIn limit rest (next (value, rest))) :
    StaysIn limit tokens (first >>= next) := by
  cases hfirst with
  | ok value hrest => exact (hnext value _ rfl).mono hrest
  | error hfault => exact .error hfault

theorem bind_refusesIn {next : α × List Token → Except Fault β}
    (hfirst : StaysIn limit tokens first)
    (hnext : ∀ value rest, RefusesIn limit rest (next (value, rest))) :
    RefusesIn limit tokens (first >>= next) := by
  cases hfirst with
  | ok value hrest => exact (hnext value _).mono hrest
  | error hfault => exact .error hfault

end StaysIn

end Outcomes

/-! ## Readers -/

/-- The reader stays in the tokens that it is given. -/
def TokenReader.Stays {α : Type} (limit : Nat) (reader : TokenReader α) : Prop :=
  ∀ tokens, StaysIn limit tokens (reader.read tokens)

theorem TokenReader.stays_tooDeep {α : Type} (limit : Nat) :
    (tooDeep limit : TokenReader α).Stays limit :=
  fun _ => .error (.tooDeep fun _ => List.mem_of_head?)

theorem staysIn_expectRole (limit : Nat) (role : Token.Role) (expected : Expectation)
    (tokens : List Token) : StaysIn limit tokens (expectRole role expected tokens) := by
  cases tokens with
  | nil => exact .error .missing
  | cons token rest =>
      by_cases hrole : token.role = role
      · rw [expectRole_of_eq hrole]
        exact .ok token (List.subset_cons_self token rest)
      · rw [expectRole_of_ne hrole]
        exact .error (.unexpected expected List.mem_cons_self)

namespace Pattern

variable {limit : Nat} {arg : TokenReader Pattern}

theorem staysIn_readArgsOnto (harg : arg.Stays limit) (found : List Pattern)
    (tokens : List Token) : StaysIn limit tokens (readArgsOnto arg found tokens) := by
  rw [readArgsOnto_eq_bind]
  apply (harg tokens).bind
  intro pattern rest hread
  cases rest with
  | nil => exact .error .missing
  | cons separator rest =>
      have hlt := Nat.lt_of_succ_lt (arg.shrinks hread)
      dsimp only
      split
      · exact (staysIn_readArgsOnto harg (pattern :: found) rest).cons separator
      · exact .ok _ (List.subset_cons_self separator rest)
      · exact .error (.unexpected _ List.mem_cons_self)
termination_by tokens.length

theorem staysIn_readArgs (harg : arg.Stays limit) (tokens : List Token) :
    StaysIn limit tokens (readArgs arg tokens) := by
  unfold readArgs
  split
  · exact staysIn_readArgsOnto harg [] []
  · split
    · exact .ok [] (List.subset_cons_self _ _)
    · exact staysIn_readArgsOnto harg [] _

theorem staysIn_readWith (harg : arg.Stays limit) (tokens : List Token) :
    StaysIn limit tokens (readWith arg tokens) := by
  fun_cases readWith arg tokens with
  | case1 => exact .error .missing
  | case2 | case3 | case6 => exact .ok _ (List.subset_cons_self _ _)
  | case4 token hrole next inner hnext fault hargs =>
      have hinner := ((staysIn_readArgs harg inner).cons next).cons token
      exact .error (hinner.arisesIn hargs)
  | case5 token hrole next inner hnext args after hargs =>
      have hinner := ((staysIn_readArgs harg inner).cons next).cons token
      exact .ok _ (hinner.subset hargs)
  | case7 => exact .error (.unexpected _ List.mem_cons_self)

theorem stays_reader (limit room : Nat) : (reader limit room).Stays limit := by
  induction room with
  | zero => exact TokenReader.stays_tooDeep limit
  | succ room ih => exact staysIn_readWith ih

end Pattern

namespace Settings

theorem staysIn_readOnto (limit : Nat) (settings : Settings) (tokens : List Token) :
    StaysIn limit tokens (readOnto settings tokens) := by
  fun_induction readOnto settings tokens with
  | case1 | case3 | case5 | case7 => exact .error (.configEnded _)
  | case2 | case4 | case10 => exact .error (.unexpected _ (by simp))
  | case6 => exact .error (.badPropertyValue (by simp))
  | case8 settings name _ equals _ token value _ separator rest _ ih =>
      exact (((ih.cons separator).cons token).cons equals).cons name
  | case9 settings name _ equals _ token value _ separator rest _ =>
      have hrest : StaysIn limit rest (.ok (settings.insert name.text value, rest)) :=
        .ok _ (List.Subset.refl rest)
      exact (((hrest.cons separator).cons token).cons equals).cons name

theorem staysIn_read (limit : Nat) (tokens : List Token) :
    StaysIn limit tokens (Settings.read tokens) := by
  unfold Settings.read
  split
  · exact staysIn_readOnto limit empty []
  · split
    · exact .ok empty (List.subset_cons_self _ _)
    · exact staysIn_readOnto limit empty _

end Settings

namespace Expr

variable {limit : Nat} {key : TokenReader Pattern} {value : TokenReader Expr}
variable {map : TokenReader (List (Pattern × Expr))}

theorem staysIn_ofSteps (limit : Nat) (steps : List Expr) (rest : List Token) :
    StaysIn limit rest (ofSteps steps rest) := by
  unfold ofSteps
  split
  · exact .ok _ (List.Subset.refl _)
  · exact .error .missing
  · exact .error (.unexpected _ List.mem_cons_self)

theorem staysIn_readStepsOnto (hmap : map.Stays limit) (ends : Token → Bool)
    (found : List Expr) (tokens : List Token) :
    StaysIn limit tokens (readStepsOnto map ends found tokens) := by
  fun_induction readStepsOnto map ends found tokens with
  | case1 | case2 => exact staysIn_ofSteps limit _ _
  | case3 found token hends hrole | case4 found token hends hrole =>
      obtain rfl := Token.role_eq_iff (m := .arrow).mp hrole
      exact .error (.danglingArrow List.mem_cons_self)
  | case5 found token next after hends hrole hnext ih => exact ih.cons token
  | case6 found token rest hends hrole fault hread =>
      exact .error ((hmap _).arisesIn hread)
  | case7 found token rest hends hrole entries after hread ih =>
      exact ih.mono ((hmap _).subset hread)
  | case9 found token hends hrole next inner hnext fault hread =>
      have hinner := ((Settings.staysIn_read limit inner).cons next).cons token
      exact .error (hinner.arisesIn hread)
  | case10 found token hends hrole next inner hnext settings after hread ih =>
      have hinner := ((Settings.staysIn_read limit inner).cons next).cons token
      exact ih.mono (hinner.subset hread)
  | case8 | case11 | case12 =>
      rename_i ih
      exact ih.cons _
  | case13 => exact .error (.unexpected _ List.mem_cons_self)

theorem staysIn_readEntriesOnto (hkey : key.Stays limit) (hvalue : value.Stays limit)
    (found : List (Pattern × Expr)) (tokens : List Token) :
    StaysIn limit tokens (readEntriesOnto key value found tokens) := by
  rw [readEntriesOnto_eq_bind]
  apply (hkey tokens).bind
  intro pattern rest hpattern
  have hltKey := key.shrinks hpattern
  cases rest with
  | nil => exact .error .missing
  | cons colon afterColon =>
      simp only [readAfterKey]
      split
      · exact .error (.unexpected _ List.mem_cons_self)
      · apply ((hvalue afterColon).bind _).cons
        intro expr rest hexpr
        have hltValue := value.shrinks hexpr
        cases rest with
        | nil => exact .error .missing
        | cons separator rest =>
            simp only [readAfterEntry]
            split
            · exact .ok _ (List.subset_cons_self _ _)
            · exact (staysIn_readEntriesOnto hkey hvalue _ rest).cons separator
termination_by tokens.length
decreasing_by
  simp only [List.length_cons] at *
  omega

theorem staysIn_readMapWith (hkey : key.Stays limit) (hvalue : value.Stays limit)
    (tokens : List Token) : StaysIn limit tokens (readMapWith key value tokens) := by
  have hbrace := staysIn_expectRole limit .openBrace .mapStart tokens
  unfold readMapWith
  split
  · next fault hread => exact .error (hbrace.arisesIn hread)
  · exact (staysIn_readEntriesOnto hkey hvalue [] []).mono (List.nil_subset _)
  · next brace token rest hread =>
    have hrest := hbrace.subset hread
    split
    · exact .ok _ (List.Subset.trans (List.subset_cons_self token rest) hrest)
    · exact (staysIn_readEntriesOnto hkey hvalue [] _).mono hrest

theorem stays_room (limit room : Nat) :
    (∀ ends, (flowReader limit ends room).Stays limit) ∧ (mapReader limit room).Stays limit := by
  induction room with
  | zero => exact ⟨fun ends => TokenReader.stays_tooDeep limit, TokenReader.stays_tooDeep limit⟩
  | succ room ih =>
      obtain ⟨hflow, hmap⟩ := ih
      constructor
      · exact fun ends => staysIn_readStepsOnto hmap ends []
      · exact staysIn_readMapWith (Pattern.stays_reader limit room) (hflow Token.endsEntry)

end Expr

theorem Signature.staysIn_read (limit : Nat) (tokens : List Token) :
    StaysIn limit tokens (Signature.read tokens) := by
  apply (staysIn_expectRole limit _ _ tokens).bind
  intro base rest hread
  cases rest with
  | nil => exact .ok _ (List.Subset.refl _)
  | cons next after =>
      dsimp only
      split
      · apply ((staysIn_expectRole limit _ _ after).bind _).cons
        exact fun output rest _ => .ok _ (List.Subset.refl _)
      · exact .ok _ (List.Subset.refl _)

namespace Assignment

theorem staysIn_readSignature (limit : Nat) (tokens : List Token) :
    StaysIn limit tokens (readSignature tokens) := by
  unfold readSignature
  split
  · exact .error .missing
  · split
    · apply ((Signature.staysIn_read limit _).bind _).cons
      exact fun signature rest _ => .ok _ (List.Subset.refl _)
    · exact .ok _ (List.Subset.refl _)

theorem refusesIn_read (limit room : Nat) (tokens : List Token) :
    RefusesIn limit tokens (read limit room tokens) := by
  cases room with
  | zero => exact .error (.tooDeep fun _ => List.mem_of_head?)
  | succ room =>
      apply (staysIn_expectRole limit _ _ tokens).bind_refusesIn
      intro name rest
      apply (staysIn_readSignature limit rest).bind_refusesIn
      intro signature rest
      apply (staysIn_expectRole limit _ _ rest).bind_refusesIn
      intro equals rest
      dsimp only
      split
      · exact .error .missing
      · exact ((Expr.stays_room limit room).1 _ rest).bind_refusesIn fun _ _ => .ok _

end Assignment

namespace Statement

theorem refusesIn_readImport (limit room : Nat) (keyword : Token) (tokens : List Token) :
    RefusesIn limit (keyword :: tokens) (readImport limit room keyword tokens) := by
  cases room with
  | zero =>
      exact .error (.tooDeep fun _ htoken => Option.some.inj htoken ▸ List.mem_cons_self)
  | succ room =>
      rw [readImport]
      split
      · exact .error (.importLength _ List.mem_cons_self)
      · apply RefusesIn.mono _ (List.subset_cons_self keyword tokens)
        apply (staysIn_expectRole limit _ _ tokens).bind_refusesIn
        intro name rest
        apply (staysIn_expectRole limit _ _ rest).bind_refusesIn
        intro colon rest
        apply (Signature.staysIn_read limit rest).bind_refusesIn
        intro signature rest
        cases rest with
        | nil => exact .ok _
        | cons next rest => exact .error (.unexpected _ List.mem_cons_self)

theorem refusesIn_readExport (limit room : Nat) (keyword : Token) (tokens : List Token) :
    RefusesIn limit (keyword :: tokens) (readExport limit room keyword tokens) := by
  cases room with
  | zero =>
      exact .error (.tooDeep fun _ htoken => Option.some.inj htoken ▸ List.mem_cons_self)
  | succ room =>
      rw [readExport]
      split
      · exact .error .missing
      · have hassignment := Assignment.refusesIn_read limit room tokens
        exact hassignment.bind_ok.mono (List.subset_cons_self keyword tokens)

/-- A statement is refused for one of its own tokens, or at its end. -/
theorem refusesIn_read (limit : Nat) (tokens : List Token) :
    RefusesIn limit tokens (read limit tokens) := by
  unfold read
  split
  · exact .error (.tooDeep fun _ => List.mem_of_head?)
  · split
    · exact .ok _
    · split
      · exact refusesIn_readImport _ _ _ _
      · exact refusesIn_readExport _ _ _ _
      · exact (Assignment.refusesIn_read _ _ _).bind_ok
      · exact .error (.unexpected _ List.mem_cons_self)

end Statement

end Dataflow
