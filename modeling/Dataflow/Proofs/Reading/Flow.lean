import Dataflow.Proofs.Reading.Pattern
import Dataflow.Proofs.Reading.Settings
import Dataflow.Syntax.Flow

/-!
# What the flow reader reads

The reader for flows takes a flow off the front of the tokens exactly when they
begin with tokens that derive it, its maps fit into the room that is left, and it
ends where it has to end.  The reader for maps needs no condition on what follows
the closing brace.
-/

namespace Dataflow

theorem Token.endsEntry_iff {token : Token} :
    token.endsEntry = true ↔ token = .mark .comma ∨ token = .mark .closeBrace := by
  rw [Token.endsEntry, Bool.or_eq_true, decide_eq_true_iff, decide_eq_true_iff]
  exact or_congr (Token.role_eq_iff (m := .comma)) (Token.role_eq_iff (m := .closeBrace))

namespace Expr

/-- Nothing follows, or a token that ends the flow. -/
def StopsAt (ends : Token → Bool) (rest : List Token) : Prop :=
  ∀ token ∈ rest.head?, ends token = true

theorem ends_identifier_eq_false {ends : Token → Bool} {token : Token}
    (hrole : token.role = .identifier) (htoken : ¬ ends token = true) :
    ends (.identifier token.text) = false := by
  rw [← Token.eq_identifier_of_role hrole]
  exact Bool.eq_false_iff.mpr htoken

/-- The flow ends at most where the value of a map entry does. -/
def EndsLikeEntry (ends : Token → Bool) : Prop :=
  ∀ token, ends token = true → token.endsEntry = true

theorem endsLikeEntry_endsEntry : EndsLikeEntry Token.endsEntry := fun _ htoken => htoken

theorem endsLikeEntry_never : EndsLikeEntry fun _ => false := nofun

theorem stopsAt_never_iff {rest : List Token} : StopsAt (fun _ => false) rest ↔ rest = [] := by
  cases rest <;> simp [StopsAt]

theorem stopsAt_mark {m : Token.Mark} (hmark : (Token.mark m).endsEntry = true)
    (rest : List Token) : StopsAt Token.endsEntry (.mark m :: rest) := by
  intro token htoken
  rw [← Option.some.inj htoken]
  exact hmark

/-- The value of a map entry ends at a comma or a closing brace. -/
theorem StopsAt.eq_comma {separator : Token} {rest : List Token}
    (hstops : StopsAt Token.endsEntry (separator :: rest))
    (hclose : ¬ separator.role = .closeBrace) : separator = .mark .comma := by
  rcases Token.endsEntry_iff.mp (hstops separator rfl) with hcomma | hbrace
  · exact hcomma
  · exact absurd (Token.role_eq_iff (m := .closeBrace).mpr hbrace) hclose

/-- What the reader takes off the front is a flow that fits into the room. -/
def FlowsWithin (room : Nat) (ends : Token → Bool) (value : TokenReader Expr) : Prop :=
  ∀ {tokens rest : List Token} {expr : Expr}, value.read tokens = .ok (expr, rest) →
    (∃ front, tokens = front ++ rest ∧ Derives front expr ∧ expr.height < room) ∧
      StopsAt ends rest

/-- What the reader takes off the front is a map that fits into the room. -/
def MapsWithin (room : Nat) (map : TokenReader (List (Pattern × Expr))) : Prop :=
  ∀ {tokens rest : List Token} {entries : List (Pattern × Expr)},
    map.read tokens = .ok (entries, rest) →
      ∃ front, tokens = front ++ rest ∧ DerivesMap front entries ∧
        heightEntries entries < room

theorem derives_of_ofSteps? {tokens : List Token} {steps : List Expr} {expr : Expr}
    (hsteps : DerivesSteps tokens steps) (hexpr : ofSteps? steps = some expr) :
    Derives tokens expr := by
  cases steps with
  | nil => contradiction
  | cons first steps =>
      cases steps with
      | nil =>
          obtain rfl := Option.some.inj hexpr
          exact .step hsteps
      | cons second steps =>
          obtain rfl := Option.some.inj hexpr
          exact .flow hsteps

theorem height_of_ofSteps? {steps : List Expr} {expr : Expr}
    (hexpr : ofSteps? steps = some expr) : expr.height = heightSteps steps := by
  cases steps with
  | nil => contradiction
  | cons first steps =>
      cases steps with
      | nil =>
          obtain rfl := Option.some.inj hexpr
          exact (Nat.max_zero _).symm
      | cons second steps =>
          obtain rfl := Option.some.inj hexpr
          rfl

/-- The tokens before `rest` derive steps which, after those already found, make
up the expression. -/
def ReadsSteps (room : Nat) (ends : Token → Bool) (found : List Expr)
    (tokens rest : List Token) (expr : Expr) : Prop :=
  (∃ front more, tokens = front ++ rest ∧ DerivesSteps front more ∧
      heightSteps more ≤ room ∧ ofSteps? (found.reverse ++ more) = some expr) ∧
    StopsAt ends rest

section ReadsSteps

variable {room : Nat} {ends : Token → Bool} {found : List Expr}
variable {tokens rest : List Token} {expr : Expr}

theorem ReadsSteps.stop (hsteps : ofSteps found.reverse tokens = .ok (expr, rest))
    (hstops : StopsAt ends tokens) : ReadsSteps room ends found tokens rest expr := by
  obtain ⟨hexpr, rfl⟩ := ofSteps_eq_ok hsteps
  exact ⟨⟨[], [], rfl, .nil, Nat.zero_le _, by simpa using hexpr⟩, hstops⟩

theorem ReadsSteps.cons {front : List Token} {step : Expr} (hstep : DerivesStep front step)
    (hheight : step.height ≤ room)
    (hreads : ReadsSteps room ends (step :: found) tokens rest expr) :
    ReadsSteps room ends found (front ++ tokens) rest expr := by
  obtain ⟨⟨others, more, rfl, hmore, hheights, hexpr⟩, hstops⟩ := hreads
  refine ⟨⟨front ++ others, step :: more, by simp, .cons 0 hstep hmore, ?_, by simpa using hexpr⟩,
    hstops⟩
  exact Nat.max_le.mpr ⟨hheight, hheights⟩

/-- An arrow counts with the step after it. -/
theorem ReadsSteps.arrow {next : Token} (hnext : ends next = false)
    (hreads : ReadsSteps room ends found (next :: tokens) rest expr) :
    ReadsSteps room ends found (.mark .arrow :: next :: tokens) rest expr := by
  obtain ⟨⟨front, more, hfront, hmore, hheights, hexpr⟩, hstops⟩ := hreads
  cases more with
  | nil =>
      cases hmore
      obtain rfl : next :: tokens = rest := hfront
      have hends := hstops next rfl
      rw [hnext] at hends
      contradiction
  | cons step more =>
      rw [hfront]
      exact ⟨⟨.mark .arrow :: front, step :: more, rfl, hmore.arrow, hheights, hexpr⟩, hstops⟩

theorem readsSteps_of_readStepsOnto {map : TokenReader (List (Pattern × Expr))}
    (hmap : MapsWithin room map)
    (hread : readStepsOnto map ends found tokens = .ok (expr, rest)) :
    ReadsSteps room ends found tokens rest expr := by
  fun_induction readStepsOnto map ends found tokens with
  | case3 | case4 | case6 | case9 | case13 => contradiction
  | case1 found => exact .stop hread (by simp [StopsAt])
  | case2 found token tail hends => exact .stop hread (by simpa [StopsAt] using hends)
  | case5 found token _ hrole next after hnext ih =>
      obtain rfl := Token.role_eq_iff (m := .arrow).mp hrole
      exact (ih hread).arrow (by simpa using hnext)
  | case7 found token tail _ _ entries inner hentries ih =>
      obtain ⟨front, hfront, hderives, hheight⟩ := hmap hentries
      rw [hfront]
      exact (ih hread).cons (.map hderives) hheight
  | case8 found token _ hrole ih =>
      rw [Token.eq_identifier_of_role hrole]
      exact (ih hread).cons (.atom (.identifier token.text)) (Nat.zero_le _)
  | case10 found token _ hrole next inner hnext settings after hsettings ih =>
      obtain rfl := Token.role_eq_iff (m := .openParen).mp hnext
      obtain ⟨front, rfl, hderives⟩ := Settings.read_eq_ok_iff.mp hsettings
      have hconfig := (ih hread).cons (.config token.text hderives) (Nat.zero_le _)
      rw [Token.eq_identifier_of_role hrole]
      simpa using hconfig
  | case11 found token _ hrole next inner hnext ih =>
      rw [Token.eq_identifier_of_role hrole]
      exact (ih hread).cons (.atom (.identifier token.text)) (Nat.zero_le _)
  | case12 found token tail _ hrole ih =>
      rw [Token.eq_literal_of_role hrole]
      exact (ih hread).cons (.atom (.literal token.text)) (Nat.zero_le _)

end ReadsSteps

theorem derivesEntries_of_readEntriesOnto {key : TokenReader Pattern}
    {value : TokenReader Expr} {room : Nat}
    (hkey : Pattern.ReadsWithin room key) (hvalue : FlowsWithin room Token.endsEntry value)
    {found entries : List (Pattern × Expr)} {tokens rest : List Token}
    (hread : readEntriesOnto key value found tokens = .ok (entries, rest)) :
    ∃ front more, tokens = front ++ .mark .closeBrace :: rest ∧ DerivesEntries front more ∧
      heightEntries more ≤ room ∧ entries = found.reverse ++ more := by
  fun_induction readEntriesOnto key value found tokens with
  | case1 | case2 | case3 | case4 | case5 => contradiction
  | case6 found tokens pattern colon afterColon hpattern hcolon expr separator after hexpr
      hclose =>
      obtain ⟨keyTokens, rfl, hderivesKey, hheightKey⟩ := hkey hpattern
      obtain ⟨⟨valueTokens, rfl, hderivesValue, hheightValue⟩, -⟩ := hvalue hexpr
      obtain rfl := Token.role_eq_iff (m := .colon).mp (Decidable.not_not.mp hcolon)
      obtain rfl := Token.role_eq_iff (m := .closeBrace).mp hclose
      obtain ⟨rfl, rfl⟩ := Prod.mk.inj (Except.ok.inj hread)
      refine ⟨_, [(pattern, expr)], by simp, .one hderivesKey hderivesValue, ?_, by simp⟩
      exact Nat.max_le.mpr ⟨Nat.max_lt.mpr ⟨hheightKey, hheightValue⟩, Nat.zero_le _⟩
  | case7 found tokens pattern colon afterColon hpattern hcolon expr separator after hexpr
      hclose ih =>
      obtain ⟨keyTokens, rfl, hderivesKey, hheightKey⟩ := hkey hpattern
      obtain ⟨⟨valueTokens, rfl, hderivesValue, hheightValue⟩, hstops⟩ := hvalue hexpr
      obtain ⟨others, more, rfl, hmore, hheights, rfl⟩ := ih hread
      obtain rfl := Token.role_eq_iff (m := .colon).mp (Decidable.not_not.mp hcolon)
      obtain rfl : separator = .mark .comma := hstops.eq_comma hclose
      refine ⟨_, (pattern, expr) :: more, by simp, .cons hderivesKey hderivesValue hmore, ?_,
        by simp⟩
      exact Nat.max_le.mpr ⟨Nat.max_lt.mpr ⟨hheightKey, hheightValue⟩, hheights⟩

theorem derivesMap_of_readMapWith {key : TokenReader Pattern} {value : TokenReader Expr}
    {room : Nat}
    (hkey : Pattern.ReadsWithin room key) (hvalue : FlowsWithin room Token.endsEntry value)
    {entries : List (Pattern × Expr)} {tokens rest : List Token}
    (hread : readMapWith key value tokens = .ok (entries, rest)) :
    ∃ front, tokens = front ++ rest ∧ DerivesMap front entries ∧
      heightEntries entries < room + 1 := by
  have hentries : ∀ {tokens : List Token},
      readEntriesOnto key value [] tokens = .ok (entries, rest) →
        ∃ front, .mark .openBrace :: tokens = front ++ rest ∧ DerivesMap front entries ∧
          heightEntries entries < room + 1 := by
    intro tokens hread
    obtain ⟨front, more, rfl, hmore, hheights, rfl⟩ :=
      derivesEntries_of_readEntriesOnto hkey hvalue hread
    exact ⟨_, by simp, .entries hmore, Nat.lt_succ_of_le hheights⟩
  unfold readMapWith at hread
  split at hread
  · contradiction
  · next brace hbrace =>
    obtain ⟨rfl, hrole⟩ := expectRole_eq_ok_iff.mp hbrace
    obtain rfl := Token.role_eq_iff (m := .openBrace).mp hrole
    exact hentries hread
  · next brace token inner hbrace =>
    obtain ⟨rfl, hrole⟩ := expectRole_eq_ok_iff.mp hbrace
    obtain rfl := Token.role_eq_iff (m := .openBrace).mp hrole
    split at hread
    · next hclose =>
      obtain rfl := Token.role_eq_iff (m := .closeBrace).mp hclose
      obtain ⟨rfl, rfl⟩ := Prod.mk.inj (Except.ok.inj hread)
      exact ⟨_, by simp, .empty, Nat.succ_pos room⟩
    · exact hentries hread

/-- What the readers for flows and for maps read fits into their room. -/
theorem readsWithin_room (limit room : Nat) :
    (∀ ends, FlowsWithin room ends (flowReader limit ends room)) ∧
      MapsWithin room (mapReader limit room) := by
  induction room with
  | zero =>
      constructor
      · intro ends tokens rest expr hread
        contradiction
      · intro tokens rest entries hread
        contradiction
  | succ room ih =>
      obtain ⟨hflow, hmap⟩ := ih
      constructor
      · intro ends tokens rest expr hread
        obtain ⟨⟨front, steps, hfront, hsteps, hheight, hexpr⟩, hstops⟩ :=
          readsSteps_of_readStepsOnto hmap hread
        refine ⟨⟨front, hfront, derives_of_ofSteps? hsteps hexpr, ?_⟩, hstops⟩
        rw [height_of_ofSteps? hexpr]
        exact Nat.lt_succ_of_le hheight
      · intro tokens rest entries hread
        have hkey : Pattern.ReadsWithin room (Pattern.reader limit room) :=
          fun hread => (Pattern.derives_of_read hread).1
        exact derivesMap_of_readMapWith hkey (hflow Token.endsEntry) hread

/-! ## Reading what the grammar derives -/

theorem DerivesMap.exists_cons {tokens : List Token} {entries : List (Pattern × Expr)}
    (hderives : DerivesMap tokens entries) :
    ∃ rest, tokens = .mark .openBrace :: rest := by
  cases hderives with
  | empty => exact ⟨_, rfl⟩
  | entries hentries => exact ⟨_, rfl⟩

/-- Every step begins with a name, a literal or an opening brace. -/
theorem DerivesStep.exists_cons {tokens : List Token} {step : Expr}
    (hderives : DerivesStep tokens step) :
    ∃ token rest, tokens = token :: rest ∧
      ((∃ value : Atom, token = value.token) ∨ token = .mark .openBrace) := by
  cases hderives with
  | atom value => exact ⟨_, _, rfl, .inl ⟨value, rfl⟩⟩
  | config name hsettings => exact ⟨_, _, rfl, .inl ⟨.identifier name, rfl⟩⟩
  | map hmap =>
      obtain ⟨rest, rfl⟩ := hmap.exists_cons
      exact ⟨_, _, rfl, .inr rfl⟩

/-- A name with settings as a step. -/
theorem readStepsOnto_config_eq_bind {map : TokenReader (List (Pattern × Expr))}
    {ends : Token → Bool} {name : String} (hname : ends (.identifier name) = false)
    (found : List Expr) (tokens : List Token) :
    readStepsOnto map ends found (.identifier name :: .mark .openParen :: tokens) =
      Settings.read tokens >>= fun (settings, rest) =>
        readStepsOnto map ends (.config name settings :: found) rest := by
  rw [readStepsOnto.eq_def]
  simp only [hname, Bool.false_eq_true, if_false, Token.role_identifier, Token.role_mark,
    Token.Mark.role, if_true]
  split
  · next fault hread => rw [hread]; rfl
  · next settings rest hread => rw [hread]; rfl

theorem readStepsOnto_map_eq_bind {map : TokenReader (List (Pattern × Expr))}
    {ends : Token → Bool} (hbrace : ends (.mark .openBrace) = false) (found : List Expr)
    (tokens : List Token) :
    readStepsOnto map ends found (.mark .openBrace :: tokens) =
      map.read (.mark .openBrace :: tokens) >>= fun (entries, rest) =>
        readStepsOnto map ends (.map entries :: found) rest := by
  rw [readStepsOnto.eq_def]
  simp only [hbrace, Bool.false_eq_true, if_false, Token.role_mark, Token.Mark.role]
  split
  · next fault hread => rw [hread]; rfl
  · next entries rest hread => rw [hread]; rfl

section Complete

variable {map : TokenReader (List (Pattern × Expr))} {ends : Token → Bool}
variable (hends : EndsLikeEntry ends)

include hends

theorem ends_eq_false {token : Token} (htoken : token.endsEntry = false) :
    ends token = false := by
  rw [Bool.eq_false_iff]
  intro htrue
  rw [hends token htrue] at htoken
  contradiction

theorem DerivesStep.ends_head_eq_false {token : Token} {tokens : List Token} {step : Expr}
    (hderives : DerivesStep (token :: tokens) step) : ends token = false := by
  obtain ⟨first, rest, heq, hfirst⟩ := hderives.exists_cons
  obtain ⟨rfl, rfl⟩ := List.cons.inj heq
  apply ends_eq_false hends
  rcases hfirst with ⟨value, rfl⟩ | rfl
  · cases value <;> rfl
  · rfl

omit hends in
theorem readStepsOnto_of_stopsAt {rest : List Token} (hstops : StopsAt ends rest)
    (found : List Expr) :
    readStepsOnto map ends found rest = ofSteps found.reverse rest := by
  rw [readStepsOnto.eq_def]
  cases rest with
  | nil => rfl
  | cons token rest => exact if_pos (hstops token rfl)

theorem readStepsOnto_arrow {next : Token} (hnext : ends next = false)
    (found : List Expr) (rest : List Token) :
    readStepsOnto map ends found (.mark .arrow :: next :: rest) =
      readStepsOnto map ends found (next :: rest) := by
  have harrow : ends (.mark .arrow) = false := ends_eq_false hends rfl
  rw [readStepsOnto.eq_def]
  simp [harrow, hnext, Token.Mark.role]

theorem readStepsOnto_arrows {token : Token} (htoken : ends token = false) (arrows : Nat)
    (found : List Expr) (rest : List Token) :
    readStepsOnto map ends found (List.replicate arrows (.mark .arrow) ++ token :: rest) =
      readStepsOnto map ends found (token :: rest) := by
  have harrow : ends (.mark .arrow) = false := ends_eq_false hends rfl
  induction arrows with
  | zero => rfl
  | succ arrows ih =>
      rw [← ih, List.replicate_succ, List.cons_append]
      cases arrows with
      | zero => exact readStepsOnto_arrow hends htoken found rest
      | succ arrows => exact readStepsOnto_arrow hends harrow found _

theorem readStepsOnto_map {tokens rest : List Token} {entries : List (Pattern × Expr)}
    (hmap : map.read (.mark .openBrace :: tokens) = .ok (entries, rest))
    (found : List Expr) :
    readStepsOnto map ends found (.mark .openBrace :: tokens) =
      readStepsOnto map ends (.map entries :: found) rest := by
  have hbrace : ends (.mark .openBrace) = false := ends_eq_false hends rfl
  rw [readStepsOnto_map_eq_bind hbrace, hmap]
  rfl

theorem readStepsOnto_config {tokens rest : List Token} {settings : Settings} (name : String)
    (hsettings : Settings.read tokens = .ok (settings, rest)) (found : List Expr) :
    readStepsOnto map ends found (.identifier name :: .mark .openParen :: tokens) =
      readStepsOnto map ends (.config name settings :: found) rest := by
  have hname : ends (.identifier name) = false := ends_eq_false hends rfl
  rw [readStepsOnto_config_eq_bind hname, hsettings]
  rfl

theorem DerivesMap.readStepsOnto_eq {tokens rest : List Token}
    {entries : List (Pattern × Expr)} (hderives : DerivesMap tokens entries)
    (hmap : map.read (tokens ++ rest) = .ok (entries, rest)) (found : List Expr) :
    readStepsOnto map ends found (tokens ++ rest) =
      readStepsOnto map ends (.map entries :: found) rest := by
  obtain ⟨inner, rfl⟩ := hderives.exists_cons
  exact readStepsOnto_map hends hmap found

theorem readStepsOnto_derives {tokens : List Token} {settings : Settings} (name : String)
    (hsettings : Settings.Derives tokens settings) (found : List Expr) (rest : List Token) :
    readStepsOnto map ends found
        (.identifier name :: .mark .openParen :: (tokens ++ [.mark .closeParen]) ++ rest) =
      readStepsOnto map ends (.config name settings :: found) rest := by
  rw [List.cons_append, List.cons_append, List.append_assoc, List.singleton_append]
  exact readStepsOnto_config hends name (hsettings.read_eq rest) found

theorem readStepsOnto_atom {rest : List Token} (value : Atom)
    (hrest : (Pattern.atom value).EndsBefore rest) (found : List Expr) :
    readStepsOnto map ends found (value.token :: rest) =
      readStepsOnto map ends (.atom value :: found) rest := by
  have hvalue : ends value.token = false := ends_eq_false hends (by cases value <;> rfl)
  rw [readStepsOnto.eq_def]
  simp only [hvalue]
  cases value with
  | literal text => simp [Atom.token]
  | identifier name =>
      cases rest with
      | nil => simp [Atom.token]
      | cons next rest =>
          have hnext : next.role ≠ .openParen := Token.role_ne_of_head?_ne hrest
          simp [Atom.token, hnext]

end Complete

/-- What is read after an entry: the closing brace or the next entries. -/
def readAfterEntry (key : TokenReader Pattern) (value : TokenReader Expr)
    (found : List (Pattern × Expr)) :
    List Token → Except Fault (List (Pattern × Expr) × List Token)
  | [] => .error .missing
  | separator :: rest =>
    if separator.role = .closeBrace then .ok (found.reverse, rest)
    else readEntriesOnto key value found rest

/-- What is read after a key: a colon, its value and what comes after the entry. -/
def readAfterKey (key : TokenReader Pattern) (value : TokenReader Expr)
    (found : List (Pattern × Expr)) (pattern : Pattern) :
    List Token → Except Fault (List (Pattern × Expr) × List Token)
  | [] => .error .missing
  | colon :: rest =>
    if colon.role ≠ .colon then .error (.unexpected .mapColon colon)
    else
      value.read rest >>= fun (expr, rest) =>
        readAfterEntry key value ((pattern, expr) :: found) rest

theorem readEntriesOnto_eq_bind (key : TokenReader Pattern) (value : TokenReader Expr)
    (found : List (Pattern × Expr)) (tokens : List Token) :
    readEntriesOnto key value found tokens = key.read tokens >>= fun (pattern, rest) =>
      readAfterKey key value found pattern rest := by
  rw [readEntriesOnto.eq_def]
  split
  · next fault hread => rw [hread]; rfl
  · next pattern hread => rw [hread]; rfl
  · next pattern colon rest hread =>
    rw [hread]
    change _ = readAfterKey key value found pattern (colon :: rest)
    rw [readAfterKey]
    split
    · rfl
    · split
      · next fault hvalue => rw [hvalue]; rfl
      · next expr hvalue => rw [hvalue]; rfl
      · next expr separator rest hvalue => rw [hvalue]; rfl

theorem readEntriesOnto_entry {key : TokenReader Pattern} {value : TokenReader Expr}
    {pattern : Pattern} {expr : Expr} {separator : Token} {tokens middle rest : List Token}
    (hkey : key.read tokens = .ok (pattern, .mark .colon :: middle))
    (hvalue : value.read middle = .ok (expr, separator :: rest))
    (found : List (Pattern × Expr)) :
    readEntriesOnto key value found tokens =
      if separator.role = .closeBrace then .ok (((pattern, expr) :: found).reverse, rest)
      else readEntriesOnto key value ((pattern, expr) :: found) rest := by
  rw [readEntriesOnto_eq_bind, hkey]
  change (value.read middle >>= fun (expr, rest) =>
    readAfterEntry key value ((pattern, expr) :: found) rest) = _
  rw [hvalue]
  rfl

theorem readMapWith_of_atom {key : TokenReader Pattern} {value : TokenReader Expr}
    (first : Atom) (tokens : List Token) :
    readMapWith key value (.mark .openBrace :: first.token :: tokens) =
      readEntriesOnto key value [] (first.token :: tokens) := by
  cases first <;> rfl

theorem DerivesEntries.exists_cons {tokens : List Token} {entries : List (Pattern × Expr)}
    (hderives : DerivesEntries tokens entries) :
    ∃ (first : Atom) (rest : List Token), tokens = first.token :: rest := by
  cases hderives with
  | one hkey hvalue =>
      obtain ⟨first, rest, rfl⟩ := hkey.exists_cons
      exact ⟨first, _, rfl⟩
  | cons hkey hvalue hrest =>
      obtain ⟨first, rest, rfl⟩ := hkey.exists_cons
      exact ⟨first, _, rfl⟩

/-- After steps and at the end of a flow there is no opening parenthesis. -/
theorem DerivesSteps.head?_append_ne {ends : Token → Bool}
    (hends : EndsLikeEntry ends) {tokens rest : List Token}
    {steps : List Expr} (hderives : DerivesSteps tokens steps) (hstops : StopsAt ends rest) :
    (tokens ++ rest).head? ≠ some (.mark .openParen) := by
  intro hhead
  cases hderives with
  | nil =>
      have htrue := hends _ (hstops _ hhead)
      contradiction
  | cons arrows hstep hrest =>
      obtain ⟨first, others, rfl, hfirst⟩ := hstep.exists_cons
      cases arrows with
      | succ arrows => simp [List.replicate_succ] at hhead
      | zero =>
          obtain rfl : first = .mark .openParen := by simpa using hhead
          rcases hfirst with ⟨value, hvalue⟩ | hbrace
          · cases value <;> simp [Atom.token] at hvalue
          · simp at hbrace

mutual

/-- A flow that fits into the room is read where it may end. -/
theorem Derives.read_eq (limit : Nat) {room : Nat} {ends : Token → Bool}
    (hends : EndsLikeEntry ends) {tokens rest : List Token}
    {expr : Expr} : Derives tokens expr → expr.height < room → StopsAt ends rest →
      (flowReader limit ends room).read (tokens ++ rest) = .ok (expr, rest)
  | .step hsteps, hroom, hstops => by
      obtain ⟨room, rfl⟩ := Nat.exists_eq_add_one_of_ne_zero (Nat.ne_zero_of_lt hroom)
      have hheight := Nat.max_le.mpr ⟨Nat.le_of_lt_succ hroom, Nat.zero_le room⟩
      exact hsteps.readStepsOnto_eq limit hends [] hheight hstops
  | .flow hsteps, hroom, hstops => by
      obtain ⟨room, rfl⟩ := Nat.exists_eq_add_one_of_ne_zero (Nat.ne_zero_of_lt hroom)
      exact hsteps.readStepsOnto_eq limit hends [] (Nat.le_of_lt_succ hroom) hstops

theorem DerivesSteps.readStepsOnto_eq (limit : Nat) {room : Nat} {ends : Token → Bool}
    (hends : EndsLikeEntry ends) {tokens rest : List Token}
    {steps : List Expr} (found : List Expr) : DerivesSteps tokens steps →
      heightSteps steps ≤ room → StopsAt ends rest →
      readStepsOnto (mapReader limit room) ends found (tokens ++ rest) =
        ofSteps (found.reverse ++ steps) rest
  | .nil, _, hstops => by
      rw [List.append_nil]
      exact readStepsOnto_of_stopsAt hstops found
  | .cons arrows hstep hrest, hroom, hstops => by
      obtain ⟨hheight, hheights⟩ := Nat.max_le.mp hroom
      have hread := hstep.readStepsOnto_eq limit hends found hheight
        (hrest.head?_append_ne hends hstops)
      rw [hrest.readStepsOnto_eq limit hends _ hheights hstops] at hread
      obtain ⟨first, others, rfl, -⟩ := hstep.exists_cons
      have hfirst := hstep.ends_head_eq_false hends
      rw [List.append_assoc, List.append_assoc, List.cons_append,
        readStepsOnto_arrows hends hfirst arrows]
      simpa using hread

theorem DerivesStep.readStepsOnto_eq (limit : Nat) {room : Nat} {ends : Token → Bool}
    (hends : EndsLikeEntry ends) {tokens rest : List Token}
    {step : Expr} (found : List Expr) : DerivesStep tokens step → step.height ≤ room →
      rest.head? ≠ some (.mark .openParen) →
      readStepsOnto (mapReader limit room) ends found (tokens ++ rest) =
        readStepsOnto (mapReader limit room) ends (step :: found) rest
  | .atom value, _, hrest =>
      readStepsOnto_atom hends value (Pattern.endsBefore_of_head? hrest _) found
  | .config name hsettings, _, _ => readStepsOnto_derives hends name hsettings found rest
  | .map hmap, hroom, _ => hmap.readStepsOnto_eq hends (hmap.read_eq limit rest hroom) found

theorem DerivesMap.read_eq (limit : Nat) {room : Nat} {tokens : List Token}
    {entries : List (Pattern × Expr)} (rest : List Token) : DerivesMap tokens entries →
      heightEntries entries < room →
      (mapReader limit room).read (tokens ++ rest) = .ok (entries, rest)
  | .empty, hroom => by
      obtain ⟨room, rfl⟩ := Nat.exists_eq_add_one_of_ne_zero (Nat.ne_zero_of_lt hroom)
      rfl
  | .entries hentries, hroom => by
      obtain ⟨room, rfl⟩ := Nat.exists_eq_add_one_of_ne_zero (Nat.ne_zero_of_lt hroom)
      have hread := hentries.readEntriesOnto_eq limit [] rest (Nat.le_of_lt_succ hroom)
      obtain ⟨first, others, rfl⟩ := hentries.exists_cons
      rw [List.cons_append, List.append_assoc, List.singleton_append]
      exact (readMapWith_of_atom first _).trans hread

theorem DerivesEntries.readEntriesOnto_eq (limit : Nat) {room : Nat}
    {tokens : List Token} {entries : List (Pattern × Expr)}
    (found : List (Pattern × Expr)) (rest : List Token) : DerivesEntries tokens entries →
      heightEntries entries ≤ room →
      readEntriesOnto (Pattern.reader limit room) (flowReader limit Token.endsEntry room) found
        (tokens ++ .mark .closeBrace :: rest) = .ok (found.reverse ++ entries, rest)
  | .one hkey hvalue, hroom => by
      obtain ⟨hkeyRoom, hvalueRoom⟩ := Nat.max_lt.mp (Nat.max_le.mp hroom).1
      rw [List.append_assoc, List.cons_append, readEntriesOnto_entry
        (hkey.read_eq limit hkeyRoom (Pattern.endsBefore_cons (by simp) _ _))
        (hvalue.read_eq limit endsLikeEntry_endsEntry hvalueRoom
          (stopsAt_mark (m := .closeBrace) rfl rest)),
        if_pos (show (Token.mark .closeBrace).role = .closeBrace from rfl), List.reverse_cons]
  | .cons hkey hvalue hrest, hroom => by
      obtain ⟨hheight, hheights⟩ := Nat.max_le.mp hroom
      obtain ⟨hkeyRoom, hvalueRoom⟩ := Nat.max_lt.mp hheight
      rw [List.append_assoc, List.cons_append, List.append_assoc, List.cons_append,
        readEntriesOnto_entry
          (hkey.read_eq limit hkeyRoom (Pattern.endsBefore_cons (by simp) _ _))
          (hvalue.read_eq limit endsLikeEntry_endsEntry hvalueRoom
            (stopsAt_mark (m := .comma) rfl _)),
        if_neg (show (Token.mark .comma).role ≠ .closeBrace from nofun),
        hrest.readEntriesOnto_eq limit _ rest hheights, List.reverse_cons, List.append_assoc,
        List.singleton_append]

end

theorem Derives.ne_nil {tokens : List Token} {expr : Expr} (hderives : Derives tokens expr) :
    tokens ≠ [] := by
  have hcons : ∀ {tokens : List Token} {step : Expr} {steps : List Expr},
      DerivesSteps tokens (step :: steps) → tokens ≠ [] := by
    intro tokens step steps hsteps
    cases hsteps with
    | cons arrows hstep hrest =>
        obtain ⟨first, others, rfl, -⟩ := hstep.exists_cons
        simp
  cases hderives with
  | step hsteps => exact hcons hsteps
  | flow hsteps => exact hcons hsteps

theorem flowReader_eq_ok_iff {limit room : Nat} {ends : Token → Bool}
    (hends : EndsLikeEntry ends) {tokens rest : List Token} {expr : Expr} :
    (flowReader limit ends room).read tokens = .ok (expr, rest) ↔
      (∃ front, tokens = front ++ rest ∧ Derives front expr ∧ expr.height < room) ∧
        StopsAt ends rest := by
  constructor
  · exact (readsWithin_room limit room).1 ends
  · rintro ⟨⟨front, rfl, hderives, hheight⟩, hstops⟩
    exact hderives.read_eq limit hends hheight hstops

theorem mapReader_eq_ok_iff {limit room : Nat} {tokens rest : List Token}
    {entries : List (Pattern × Expr)} :
    (mapReader limit room).read tokens = .ok (entries, rest) ↔
      ∃ front, tokens = front ++ rest ∧ DerivesMap front entries ∧
        heightEntries entries < room := by
  constructor
  · exact (readsWithin_room limit room).2
  · rintro ⟨front, rfl, hderives, hheight⟩
    exact hderives.read_eq limit rest hheight

end Expr

end Dataflow
