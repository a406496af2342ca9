import Dataflow.Proofs.Reading.Statement
import Dataflow.Proofs.Renaming.Basic

/-!
# Reading renamed tokens

A reader does with renamed tokens what it does with the tokens themselves: it hands
on the renamed tokens that are left, or refuses with the renamed fault.  What it
reads is renamed too.  Where it holds the properties of components this needs that
different names stay different: two properties may become one otherwise.
-/

namespace Dataflow

/-! ## Outcomes -/

/-- The second outcome is what becomes of the first for renamed tokens. -/
inductive Follows {α : Type} (ρ : Renaming) (Image : α → α → Prop) :
    Except Fault α → Except Fault α → Prop where
  | ok {value value' : α} (himage : Image value value') : Follows ρ Image (.ok value) (.ok value')
  | error (fault : Fault) : Follows ρ Image (.error fault) (.error (fault.rename ρ))

/-- The second value is the first one renamed. -/
def Becomes {α : Type} (rename : α → α) (value renamed : α) : Prop :=
  renamed = rename value

/-- The second value is the first one renamed, if different names stay different. -/
def Corresponds {α : Type} (ρ : Renaming) (rename : Function.Injective ρ.name → α → α)
    (value renamed : α) : Prop :=
  ∀ hname, Becomes (rename hname) value renamed

/-- The tokens that are left are renamed as well. -/
def Reading {α : Type} (ρ : Renaming) (Image : α → α → Prop) (left right : α × List Token) :
    Prop :=
  Image left.1 right.1 ∧ right.2 = left.2.map (Token.rename ρ)

namespace Follows

variable {α β : Type} {ρ : Renaming} {Image : α → α → Prop} {Image' : β → β → Prop}

theorem read {value value' : α} (himage : Image value value') (rest : List Token) :
    Follows ρ (Reading ρ Image) (.ok (value, rest)) (.ok (value', rest.map (Token.rename ρ))) :=
  .ok ⟨himage, rfl⟩

theorem renamed {rename : α → α} (value : α) (rest : List Token) :
    Follows ρ (Reading ρ (Becomes rename)) (.ok (value, rest))
      (.ok (rename value, rest.map (Token.rename ρ))) :=
  .ok ⟨rfl, rfl⟩

theorem tooDeep (limit : Nat) (tokens : List Token) :
    Follows ρ Image (.error (.tooDeep limit tokens.head?))
      (.error (.tooDeep limit (tokens.map (Token.rename ρ)).head?)) := by
  rw [List.head?_map]
  exact error (.tooDeep limit tokens.head?)

theorem eq_error {fault : Fault} {first renamed : Except Fault α}
    (hfollows : Follows ρ Image first renamed) (herror : first = .error fault) :
    renamed = .error (fault.rename ρ) := by
  subst herror
  cases hfollows
  rfl

theorem eq_ok {value : α} {first renamed : Except Fault α}
    (hfollows : Follows ρ Image first renamed) (hread : first = .ok value) :
    ∃ value', renamed = .ok value' ∧ Image value value' := by
  subst hread
  cases hfollows with
  | ok himage => exact ⟨_, rfl, himage⟩

theorem eq_read {value : α} {rest : List Token} {first renamed : Except Fault (α × List Token)}
    (hfollows : Follows ρ (Reading ρ Image) first renamed) (hread : first = .ok (value, rest)) :
    ∃ value', renamed = .ok (value', rest.map (Token.rename ρ)) ∧ Image value value' := by
  obtain ⟨⟨value', rest'⟩, rfl, himage, hrest⟩ := hfollows.eq_ok hread
  obtain rfl : rest' = rest.map (Token.rename ρ) := hrest
  exact ⟨value', rfl, himage⟩

theorem imp {first first' : Except Fault (α × List Token)} {Other : α → α → Prop}
    (hfirst : Follows ρ (Reading ρ Image) first first')
    (himp : ∀ value value' rest, first = .ok (value, rest) → Image value value' →
      Other value value') : Follows ρ (Reading ρ Other) first first' := by
  cases hfirst with
  | ok himage => exact .ok ⟨himp _ _ _ rfl himage.1, himage.2⟩
  | error fault => exact .error fault

theorem bind_ok {first first' : Except Fault α} {finish finish' : α → β}
    (hfirst : Follows ρ Image first first')
    (hfinish : ∀ value value', Image value value' → Image' (finish value) (finish' value')) :
    Follows ρ Image' (first >>= fun value => .ok (finish value))
      (first' >>= fun value => .ok (finish' value)) := by
  cases hfirst with
  | ok himage => exact .ok (hfinish _ _ himage)
  | error fault => exact .error fault

/-- What is read next is read from the renamed tokens that are left. -/
theorem bind {first first' : Except Fault (α × List Token)}
    {next next' : α × List Token → Except Fault β}
    (hfirst : Follows ρ (Reading ρ Image) first first')
    (hnext : ∀ value value' rest, first = .ok (value, rest) → Image value value' →
      Follows ρ Image' (next (value, rest)) (next' (value', rest.map (Token.rename ρ)))) :
    Follows ρ Image' (first >>= next) (first' >>= next') := by
  cases first with
  | ok front =>
      obtain ⟨value', rfl, himage⟩ := hfirst.eq_read rfl
      exact hnext front.1 value' front.2 rfl himage
  | error fault =>
      rw [hfirst.eq_error rfl]
      exact .error fault

end Follows

/-- The reader treats renamed tokens alike. -/
def TokenReader.Follows {α : Type} (ρ : Renaming) (Image : α → α → Prop)
    (reader : TokenReader α) : Prop :=
  ∀ tokens, Dataflow.Follows ρ (Reading ρ Image) (reader.read tokens)
    (reader.read (tokens.map (Token.rename ρ)))

section Readers

variable {ρ : Renaming}

theorem TokenReader.follows_tooDeep {α : Type} (Image : α → α → Prop) (limit : Nat) :
    (tooDeep limit : TokenReader α).Follows ρ Image :=
  fun tokens => .tooDeep limit tokens

theorem follows_expectRole (ρ : Renaming) (role : Token.Role) (expected : Expectation)
    (tokens : List Token) :
    Follows ρ (Reading ρ (Becomes (Token.rename ρ))) (expectRole role expected tokens)
      (expectRole role expected (tokens.map (Token.rename ρ))) := by
  cases tokens with
  | nil => exact .error .missing
  | cons token rest =>
      have hsame := Token.role_rename ρ token
      rw [List.map_cons]
      by_cases hrole : token.role = role
      · rw [expectRole_of_eq hrole, expectRole_of_eq (hsame.trans hrole)]
        exact .renamed _ rest
      · rw [expectRole_of_ne hrole, expectRole_of_ne (hsame ▸ hrole)]
        exact .error (.unexpected expected token)

/-! ## Patterns -/

namespace Pattern

variable {arg : TokenReader Pattern}

theorem follows_readArgsOnto (harg : arg.Follows ρ (Becomes (Pattern.rename ρ)))
    (found : List Pattern) (tokens : List Token) :
    Follows ρ (Reading ρ (Becomes (List.map (Pattern.rename ρ)))) (readArgsOnto arg found tokens)
      (readArgsOnto arg (found.map (Pattern.rename ρ)) (tokens.map (Token.rename ρ))) := by
  rw [readArgsOnto_eq_bind, readArgsOnto_eq_bind]
  apply (harg tokens).bind
  rintro pattern _ rest hread rfl
  cases rest with
  | nil => exact .error .missing
  | cons separator rest =>
      have hlt := Nat.lt_of_succ_lt (arg.shrinks hread)
      simp only [List.map_cons, Token.role_rename]
      split
      · exact follows_readArgsOnto harg (pattern :: found) rest
      · exact .read (by simp [Becomes]) rest
      · exact .error (.unexpected _ separator)
termination_by tokens.length

theorem follows_readArgs (harg : arg.Follows ρ (Becomes (Pattern.rename ρ))) (tokens : List Token) :
    Follows ρ (Reading ρ (Becomes (List.map (Pattern.rename ρ)))) (readArgs arg tokens)
      (readArgs arg (tokens.map (Token.rename ρ))) := by
  cases tokens with
  | nil => exact follows_readArgsOnto harg [] []
  | cons token rest =>
      rw [List.map_cons, readArgs, readArgs, Token.role_rename]
      split
      · exact .renamed _ rest
      · exact follows_readArgsOnto harg [] (token :: rest)

theorem follows_readWith (harg : arg.Follows ρ (Becomes (Pattern.rename ρ)))
    (tokens : List Token) :
    Follows ρ (Reading ρ (Becomes (Pattern.rename ρ))) (readWith arg tokens)
      (readWith arg (tokens.map (Token.rename ρ))) := by
  fun_cases readWith arg tokens with
  | case1 => exact .error .missing
  | case2 token rest hrole =>
      rw [Token.eq_literal_of_role hrole]
      exact .renamed _ rest
  | case3 token hrole =>
      rw [Token.eq_identifier_of_role hrole]
      exact .renamed _ []
  | case4 token hrole next inner hnext fault hargs =>
      have hrenamed := (follows_readArgs harg inner).eq_error hargs
      rw [Token.eq_identifier_of_role hrole, Token.role_eq_iff (m := .openParen).mp hnext,
        List.map_cons, List.map_cons, Token.rename_identifier, Token.rename_mark,
        readWith_constructor, hrenamed]
      exact .error fault
  | case5 token hrole next inner hnext args after hargs =>
      obtain ⟨args', hargs', himage⟩ := (follows_readArgs harg inner).eq_read hargs
      rw [Token.eq_identifier_of_role hrole, Token.role_eq_iff (m := .openParen).mp hnext,
        List.map_cons, List.map_cons, Token.rename_identifier, Token.rename_mark,
        readWith_constructor, hargs', himage, ← renameArgs_eq_map]
      exact .renamed _ after
  | case6 token hrole next inner hnext =>
      rw [Token.eq_identifier_of_role hrole, List.map_cons, List.map_cons]
      simp only [readWith, Token.rename_identifier, Token.role_identifier, Token.role_rename, hnext,
        if_false]
      exact .renamed _ (next :: inner)
  | case7 token rest hliteral hidentifier =>
      have hrole := Token.role_rename ρ token
      rw [List.map_cons]
      simp only [readWith, hrole]
      exact .error (.unexpected .patternStart token)

theorem follows_reader (limit room : Nat) :
    (reader limit room).Follows ρ (Becomes (Pattern.rename ρ)) := by
  induction room with
  | zero => exact TokenReader.follows_tooDeep _ limit
  | succ room ih => exact follows_readWith ih

end Pattern

/-! ## Settings -/

namespace Settings

/-- A property is set in settings that correspond as the renamed one. -/
theorem corresponds_insert {settings settings' : Settings}
    (hsettings : Corresponds ρ (Settings.rename ρ) settings settings') {name : Token}
    (hrole : name.role = .identifier) (value : Atom) :
    Corresponds ρ (Settings.rename ρ) (settings.insert name.text value)
      (settings'.insert (name.rename ρ).text (value.rename ρ)) := by
  intro hname
  rw [Becomes, rename_insert, hsettings hname, Token.text_rename_of_identifier ρ hrole]

theorem follows_readOnto {settings settings' : Settings}
    (hsettings : Corresponds ρ (Settings.rename ρ) settings settings') (tokens : List Token) :
    Follows ρ (Reading ρ (Corresponds ρ (Settings.rename ρ))) (readOnto settings tokens)
      (readOnto settings' (tokens.map (Token.rename ρ))) := by
  fun_induction readOnto settings tokens generalizing settings' with
  | case1 => exact .error _
  | case2 settings name rest hname =>
      rw [List.map_cons, readOnto.eq_def]
      simp only [Token.role_rename, if_pos hname]
      exact .error _
  | case3 settings name hname =>
      simp only [List.map_cons, List.map_nil, readOnto, Token.role_rename, if_neg hname]
      exact .error _
  | case4 settings name hname equals rest hequals =>
      rw [List.map_cons, List.map_cons, readOnto.eq_def]
      simp only [Token.role_rename, if_neg hname, if_pos hequals]
      exact .error _
  | case5 settings name hname equals hequals =>
      simp only [List.map_cons, List.map_nil, readOnto, Token.role_rename, if_neg hname,
        if_neg hequals]
      exact .error _
  | case6 settings name hname equals hequals token rest hatom =>
      simp only [List.map_cons, readOnto, Token.role_rename, if_neg hname,
        if_neg hequals, Token.atom?_rename, hatom]
      exact .error _
  | case7 settings name hname equals hequals token value hatom =>
      simp only [List.map_cons, List.map_nil, readOnto, Token.role_rename, if_neg hname,
        if_neg hequals, Token.atom?_rename, hatom]
      exact .error _
  | case8 settings name hname equals hequals token value hatom separator rest hrole ih =>
      simp only [List.map_cons, readOnto, Token.role_rename, if_neg hname,
        if_neg hequals, Token.atom?_rename, hatom, hrole]
      exact ih (corresponds_insert hsettings (not_not.mp hname) value)
  | case9 settings name hname equals hequals token value hatom separator rest hrole =>
      simp only [List.map_cons, readOnto, Token.role_rename, if_neg hname,
        if_neg hequals, Token.atom?_rename, hatom, hrole]
      exact .read (corresponds_insert hsettings (not_not.mp hname) value) rest
  | case10 settings name hname equals hequals token value hatom separator rest hcomma hclose =>
      simp only [List.map_cons, readOnto, Token.role_rename, if_neg hname,
        if_neg hequals, Token.atom?_rename, hatom]
      exact .error (.unexpected .propertySeparator separator)

theorem corresponds_empty : Corresponds ρ (Settings.rename ρ) empty empty :=
  fun hname => (rename_empty ρ hname).symm

theorem follows_read (ρ : Renaming) (tokens : List Token) :
    Follows ρ (Reading ρ (Corresponds ρ (Settings.rename ρ))) (Settings.read tokens)
      (Settings.read (tokens.map (Token.rename ρ))) := by
  cases tokens with
  | nil => exact follows_readOnto corresponds_empty []
  | cons token rest =>
      rw [List.map_cons, Settings.read, Settings.read, Token.role_rename]
      split
      · exact .read corresponds_empty rest
      · exact follows_readOnto corresponds_empty (token :: rest)

end Settings

/-! ## Flows and maps -/

theorem Atom.token_rename (value : Atom) :
    value.token.rename ρ = (value.rename ρ).token := by
  cases value <;> rfl

namespace Expr

theorem corresponds_steps {steps steps' : List Expr}
    (hsteps : List.Forall₂ (Corresponds ρ (Expr.rename ρ)) steps steps') :
    Corresponds ρ (Expr.renameSteps ρ) steps steps' := by
  intro hname
  induction hsteps with
  | nil => rfl
  | cons hstep _ ih => rw [Becomes, renameSteps, ← hstep hname, ← ih]

theorem follows_ofSteps {steps steps' : List Expr}
    (hsteps : List.Forall₂ (Corresponds ρ (Expr.rename ρ)) steps steps') (rest : List Token) :
    Follows ρ (Reading ρ (Corresponds ρ (Expr.rename ρ))) (ofSteps steps rest)
      (ofSteps steps' (rest.map (Token.rename ρ))) := by
  have hflow := corresponds_steps hsteps
  cases hsteps with
  | nil =>
      cases rest with
      | nil => exact .error .missing
      | cons token rest => exact .error (.unexpected .flow token)
  | cons hstep hrest =>
      cases hrest with
      | nil => exact .read hstep rest
      | cons hnext hrest => exact .read (fun hname => congrArg Expr.flow (hflow hname)) rest

theorem corresponds_atom (value : Atom) :
    Corresponds ρ (Expr.rename ρ) (.atom value) (.atom (value.rename ρ)) :=
  fun _ => rfl

/-- A flow ends at a renamed token where it ends at the token. -/
theorem EndsLikeEntry.rename {ends : Token → Bool} (hends : EndsLikeEntry ends) (ρ : Renaming)
    (token : Token) : ends (token.rename ρ) = ends token := by
  have hsame : (token.rename ρ).endsEntry = token.endsEntry := by
    rw [Token.endsEntry, Token.endsEntry, Token.role_rename]
  cases hentry : token.endsEntry with
  | false => rw [ends_eq_false hends hentry, ends_eq_false hends (hsame.trans hentry)]
  | true =>
      rcases Token.endsEntry_iff.mp hentry with rfl | rfl
      · rw [Token.rename_mark]
      · rw [Token.rename_mark]

/-- No opening parenthesis follows a renamed name where none follows the name. -/
theorem endsBefore_rename {rest : List Token} (hrest : rest.head? ≠ some (.mark .openParen))
    (value : Atom) :
    (Pattern.atom (value.rename ρ)).EndsBefore (rest.map (Token.rename ρ)) := by
  apply Pattern.endsBefore_of_head?
  cases rest with
  | nil => exact hrest
  | cons next rest =>
      intro hhead
      have hrole := Token.role_eq_iff (m := .openParen).mpr (Option.some.inj hhead)
      rw [Token.role_rename] at hrole
      exact Token.role_ne_of_head?_ne hrest hrole

variable {map : TokenReader (List (Pattern × Expr))} {ends : Token → Bool}

theorem follows_readStepsOnto (hmap : map.Follows ρ (Corresponds ρ (Expr.renameEntries ρ)))
    (hends : EndsLikeEntry ends) {found found' : List Expr}
    (hfound : List.Forall₂ (Corresponds ρ (Expr.rename ρ)) found found') (tokens : List Token) :
    Follows ρ (Reading ρ (Corresponds ρ (Expr.rename ρ))) (readStepsOnto map ends found tokens)
      (readStepsOnto map ends found' (tokens.map (Token.rename ρ))) := by
  -- The steps found so far are compared one by one, since a flow is refused when there are none.
  fun_induction readStepsOnto map ends found tokens generalizing found' with
  | case1 found =>
      rw [List.map_nil, readStepsOnto.eq_def]
      exact follows_ofSteps (List.rel_reverse hfound) []
  | case2 found token rest htoken =>
      have hstops : StopsAt ends ((token :: rest).map (Token.rename ρ)) := by
        intro other hother
        rw [← Option.some.inj hother, hends.rename ρ token]
        exact htoken
      rw [readStepsOnto_of_stopsAt hstops]
      exact follows_ofSteps (List.rel_reverse hfound) (token :: rest)
  | case3 found token htoken hrole =>
      rw [List.map_cons, List.map_nil, readStepsOnto.eq_def]
      simp only [hends.rename, htoken, Token.role_rename, hrole]
      exact .error (.danglingArrow token)
  | case4 found token htoken hrole next after hnext =>
      rw [List.map_cons, List.map_cons, readStepsOnto.eq_def]
      simp only [hends.rename, htoken, Token.role_rename, hrole, hnext, if_true]
      exact .error (.danglingArrow token)
  | case5 found token htoken hrole next after hnext ih =>
      have hrenamed := (hends.rename ρ next).trans (Bool.eq_false_iff.mpr hnext)
      rw [Token.role_eq_iff (m := .arrow).mp hrole, List.map_cons, List.map_cons,
        Token.rename_mark, readStepsOnto_arrow hends hrenamed]
      exact ih hfound
  | case6 found token rest htoken hrole fault hread =>
      have hrenamed := (hmap (token :: rest)).eq_error hread
      obtain rfl := Token.role_eq_iff (m := .openBrace).mp hrole
      rw [List.map_cons, Token.rename_mark] at hrenamed ⊢
      rw [readStepsOnto_map_eq_bind (ends_eq_false hends rfl), hrenamed]
      exact .error fault
  | case7 found token rest htoken hrole entries after hread ih =>
      obtain ⟨entries', hread', hentries⟩ := (hmap (token :: rest)).eq_read hread
      obtain rfl := Token.role_eq_iff (m := .openBrace).mp hrole
      rw [List.map_cons, Token.rename_mark] at hread' ⊢
      rw [readStepsOnto_map hends hread']
      exact ih (.cons (fun hname => congrArg Expr.map (hentries hname)) hfound)
  | case8 found token _ hrole ih =>
      have hatom : token = (Atom.identifier token.text).token := Token.eq_identifier_of_role hrole
      rw [hatom, List.map_cons, Atom.token_rename,
        readStepsOnto_atom hends _ (endsBefore_rename (by simp) _)]
      exact ih (.cons (corresponds_atom (.identifier token.text)) hfound)
  | case9 found token htoken hrole next inner hnext fault hread =>
      have hrenamed := (Settings.follows_read ρ inner).eq_error hread
      rw [Token.eq_identifier_of_role hrole, Token.role_eq_iff (m := .openParen).mp hnext,
        List.map_cons, List.map_cons, Token.rename_mark, Token.rename_identifier,
        readStepsOnto_config_eq_bind (ends_eq_false hends rfl), hrenamed]
      exact .error fault
  | case10 found token htoken hrole next inner hnext settings after hread ih =>
      obtain ⟨settings', hread', hsettings⟩ := (Settings.follows_read ρ inner).eq_read hread
      rw [Token.eq_identifier_of_role hrole, Token.role_eq_iff (m := .openParen).mp hnext,
        List.map_cons, List.map_cons, Token.rename_mark, Token.rename_identifier,
        readStepsOnto_config hends _ hread']
      exact ih (.cons (fun hname => congrArg (Expr.config _) (hsettings hname)) hfound)
  | case11 found token _ hrole next inner hnext ih =>
      have hatom : token = (Atom.identifier token.text).token := Token.eq_identifier_of_role hrole
      have hinner : (next :: inner).head? ≠ some (.mark .openParen) := fun hhead =>
        hnext (Token.role_eq_iff (m := .openParen).mpr (Option.some.inj hhead))
      rw [hatom, List.map_cons, Atom.token_rename,
        readStepsOnto_atom hends _ (endsBefore_rename hinner _)]
      exact ih (.cons (corresponds_atom (.identifier token.text)) hfound)
  | case12 found token rest _ hrole ih =>
      have hatom : token = (Atom.literal token.text).token := Token.eq_literal_of_role hrole
      have hrest : (Pattern.atom ((Atom.literal token.text).rename ρ)).EndsBefore
          (rest.map (Token.rename ρ)) := trivial
      rw [hatom, List.map_cons, Atom.token_rename, readStepsOnto_atom hends _ hrest]
      exact ih (.cons (corresponds_atom (.literal token.text)) hfound)
  | case13 found token rest htoken =>
      have hrole := Token.role_rename ρ token
      rw [List.map_cons, readStepsOnto.eq_def]
      simp only [hends.rename, htoken, hrole]
      exact .error (.unexpected .flowStep token)

variable {key : TokenReader Pattern} {value : TokenReader Expr}

theorem corresponds_entry {found found' : List (Pattern × Expr)}
    (hfound : Corresponds ρ (Expr.renameEntries ρ) found found') (pattern : Pattern)
    {expr expr' : Expr} (hexpr : Corresponds ρ (Expr.rename ρ) expr expr') :
    Corresponds ρ (Expr.renameEntries ρ) ((pattern, expr) :: found)
      ((pattern.rename ρ, expr') :: found') := by
  intro hname
  rw [Becomes, renameEntries, ← hfound hname, ← hexpr hname]

theorem corresponds_reverse {found found' : List (Pattern × Expr)}
    (hfound : Corresponds ρ (Expr.renameEntries ρ) found found') :
    Corresponds ρ (Expr.renameEntries ρ) found.reverse found'.reverse := by
  intro hname
  rw [Becomes, hfound hname, renameEntries_eq_map, renameEntries_eq_map, List.map_reverse]

theorem follows_readEntriesOnto (hkey : key.Follows ρ (Becomes (Pattern.rename ρ)))
    (hvalue : value.Follows ρ (Corresponds ρ (Expr.rename ρ)))
    {found found' : List (Pattern × Expr)}
    (hfound : Corresponds ρ (Expr.renameEntries ρ) found found') (tokens : List Token) :
    Follows ρ (Reading ρ (Corresponds ρ (Expr.renameEntries ρ)))
      (readEntriesOnto key value found tokens)
      (readEntriesOnto key value found' (tokens.map (Token.rename ρ))) := by
  rw [readEntriesOnto_eq_bind, readEntriesOnto_eq_bind]
  apply (hkey tokens).bind
  rintro pattern _ rest hpattern rfl
  have hltKey := key.shrinks hpattern
  cases rest with
  | nil => exact .error .missing
  | cons colon afterColon =>
      simp only [List.map_cons, readAfterKey, Token.role_rename]
      split
      · exact .error (.unexpected .mapColon colon)
      · apply (hvalue afterColon).bind
        intro expr expr' rest hread hexpr
        have hltValue := value.shrinks hread
        have hentries := corresponds_entry hfound pattern hexpr
        cases rest with
        | nil => exact .error .missing
        | cons separator rest =>
            simp only [List.map_cons, readAfterEntry, Token.role_rename]
            split
            · exact .read (corresponds_reverse hentries) rest
            · exact follows_readEntriesOnto hkey hvalue hentries rest
termination_by tokens.length
decreasing_by
  simp only [List.length_cons] at *
  omega

theorem follows_readMapWith (hkey : key.Follows ρ (Becomes (Pattern.rename ρ)))
    (hvalue : value.Follows ρ (Corresponds ρ (Expr.rename ρ))) (tokens : List Token) :
    Follows ρ (Reading ρ (Corresponds ρ (Expr.renameEntries ρ))) (readMapWith key value tokens)
      (readMapWith key value (tokens.map (Token.rename ρ))) := by
  have hempty : Corresponds ρ (Expr.renameEntries ρ) [] [] := fun _ => rfl
  have hbrace := follows_expectRole ρ .openBrace .mapStart tokens
  rw [readMapWith, readMapWith]
  cases hread : expectRole .openBrace .mapStart tokens with
  | error fault =>
      rw [hbrace.eq_error hread]
      exact .error fault
  | ok front =>
      obtain ⟨brace, rest⟩ := front
      obtain ⟨brace', hread', -⟩ := hbrace.eq_read hread
      rw [hread']
      cases rest with
      | nil => exact follows_readEntriesOnto hkey hvalue hempty []
      | cons token rest =>
          simp only [List.map_cons, Token.role_rename]
          split
          · exact .read hempty rest
          · exact follows_readEntriesOnto hkey hvalue hempty (token :: rest)

theorem follows_room (limit room : Nat) :
    (∀ ends, EndsLikeEntry ends →
        (flowReader limit ends room).Follows ρ (Corresponds ρ (Expr.rename ρ))) ∧
      (mapReader limit room).Follows ρ (Corresponds ρ (Expr.renameEntries ρ)) := by
  induction room with
  | zero =>
      constructor
      · exact fun ends _ => TokenReader.follows_tooDeep _ limit
      · exact TokenReader.follows_tooDeep _ limit
  | succ room ih =>
      obtain ⟨hflow, hmap⟩ := ih
      constructor
      · exact fun ends hends => follows_readStepsOnto hmap hends .nil
      · exact follows_readMapWith (Pattern.follows_reader limit room)
          (hflow Token.endsEntry endsLikeEntry_endsEntry)

end Expr

end Readers

end Dataflow
