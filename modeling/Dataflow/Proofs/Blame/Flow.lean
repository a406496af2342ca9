import Dataflow.Proofs.Blame.Pattern
import Dataflow.Proofs.Blame.Settings

/-!
# Faults in flows and maps

The readers for flows and maps find their faults at the first token after which
the flow or the map cannot be completed.  A phrase for a flow may hold one more
token, the one that ends it, since the flow is over only where that token is.
-/

namespace Dataflow.Expr

/-! ## Phrases -/

/-- Nothing, or one token that ends the flow. -/
def IsEnd (ends : Token → Bool) (rest : List Token) : Prop :=
  rest = [] ∨ ∃ token, ends token = true ∧ rest = [token]

/-- One step or more, perhaps with the token that ends them. -/
def StepsPhrase (ends : Token → Bool) (tokens : List Token) : Prop :=
  ∃ front rest step steps, tokens = front ++ rest ∧ DerivesSteps front (step :: steps) ∧
    IsEnd ends rest

/-- A flow, perhaps with the token that ends it. -/
def FlowPhrase (ends : Token → Bool) (tokens : List Token) : Prop :=
  ∃ front rest expr, tokens = front ++ rest ∧ Derives front expr ∧ IsEnd ends rest

def MapPhrase (tokens : List Token) : Prop :=
  ∃ entries, DerivesMap tokens entries

/-- Entries with the brace that closes them. -/
def EntriesPhrase (tokens : List Token) : Prop :=
  ∃ front entries, tokens = front ++ [.mark .closeBrace] ∧ DerivesEntries front entries

section Steps

variable {ends : Token → Bool}

variable (ends) in
theorem stepsPhrase_step {front rest : List Token} {step : Expr}
    (hstep : DerivesStep front step) (hrest : IsEnd ends rest) :
    StepsPhrase ends (front ++ rest) :=
  ⟨front, rest, step, [], rfl, .single hstep, hrest⟩

theorem StepsPhrase.cons {front rest : List Token} {step : Expr}
    (hstep : DerivesStep front step) (hrest : StepsPhrase ends rest) :
    StepsPhrase ends (front ++ rest) := by
  obtain ⟨tokens, stop, next, steps, rfl, hsteps, hstop⟩ := hrest
  exact ⟨front ++ tokens, stop, step, next :: steps, (List.append_assoc _ _ _).symm,
    .cons 0 hstep hsteps, hstop⟩

theorem StepsPhrase.arrow {rest : List Token} (hrest : StepsPhrase ends rest) :
    StepsPhrase ends (.mark .arrow :: rest) := by
  obtain ⟨tokens, stop, step, steps, rfl, hsteps, hstop⟩ := hrest
  exact ⟨.mark .arrow :: tokens, stop, step, steps, rfl, hsteps.arrow, hstop⟩

variable (ends) in
theorem completable_steps_nil : Completable (StepsPhrase ends) [] := by
  have hphrase := stepsPhrase_step ends (.atom (.literal "")) (.inl rfl)
  exact ⟨_, hphrase⟩

theorem completable_steps_arrow : Completable (StepsPhrase ends) [.mark .arrow] := by
  obtain ⟨rest, hphrase⟩ := completable_steps_nil ends
  exact ⟨rest, hphrase.arrow⟩

theorem StepsPhrase.flowPhrase {tokens : List Token} (hphrase : StepsPhrase ends tokens) :
    FlowPhrase ends tokens := by
  obtain ⟨front, rest, step, steps, rfl, hsteps, hrest⟩ := hphrase
  cases steps with
  | nil => exact ⟨front, rest, step, rfl, .step hsteps, hrest⟩
  | cons second steps => exact ⟨front, rest, _, rfl, .flow hsteps, hrest⟩

end Steps

/-! ## Flows -/

section Flows

variable {limit room : Nat} {ends : Token → Bool}

/-- Steps are only missing where none has been read. -/
theorem ofSteps?_eq_none_of_error {steps : List Expr} {tokens : List Token} {fault : Fault}
    (herror : ofSteps steps tokens = .error fault) : ofSteps? steps = none := by
  cases hsteps : ofSteps? steps with
  | none => rfl
  | some expr => simp [ofSteps, hsteps] at herror

/-- A fault after a step lies where the flow with this step cannot be completed. -/
theorem located_after_step {map : TokenReader (List (Pattern × Expr))} {found : List Expr}
    {front rest : List Token} {step : Expr} {fault : Fault} (hstep : DerivesStep front step)
    (hread : ∀ others, others.head? = rest.head? →
      readStepsOnto map ends found (front ++ others) =
        readStepsOnto map ends (step :: found) others)
    (hlocated : Located (fun others => readStepsOnto map ends (step :: found) others = .error fault)
      (StepsPhrase ends) rest fault) :
    Located (fun others => readStepsOnto map ends found others = .error fault)
      (StepsPhrase ends) (front ++ rest) fault := by
  refine hlocated.lift front (fun others hhead hothers => ?_)
    fun phrase hphrase => completable_of_phrase (hphrase.cons hstep)
  exact (hread others hhead).trans hothers

theorem located_after_atom (hends : EndsLikeEntry ends)
    {map : TokenReader (List (Pattern × Expr))} {found : List Expr} {rest : List Token}
    {fault : Fault} (value : Atom) (hrest : (Pattern.atom value).EndsBefore rest)
    (hlocated : Located
      (fun others => readStepsOnto map ends (.atom value :: found) others = .error fault)
      (StepsPhrase ends) rest fault) :
    Located (fun others => readStepsOnto map ends found others = .error fault)
      (StepsPhrase ends) (value.token :: rest) fault := by
  apply located_after_step (.atom value) (fun others hhead => ?_) hlocated
  exact readStepsOnto_atom hends value (hrest.of_head?_eq hhead) found

/-- A phrase for a step is one for a flow. -/
theorem completable_of_step {front : List Token} {step : Expr} (hstep : DerivesStep front step) :
    Completable (StepsPhrase ends) front := by
  have hphrase := stepsPhrase_step ends hstep (.inl rfl)
  rw [List.append_nil] at hphrase
  exact completable_of_phrase hphrase

theorem locates_readStepsOnto (hends : EndsLikeEntry ends)
    (hmap : Locates (mapReader limit room).read MapPhrase) (found : List Expr) :
    Locates (readStepsOnto (mapReader limit room) ends found) (StepsPhrase ends) := by
  intro tokens fault herror hdeep
  fun_induction readStepsOnto (mapReader limit room) ends found tokens with
  | case1 found =>
      simp only [ofSteps, ofSteps?_eq_none_of_error herror] at herror
      obtain rfl := Except.error.inj herror
      exact .ended .missing (completable_steps_nil ends)
  | case2 found token rest htoken =>
      have hsteps := ofSteps?_eq_none_of_error herror
      simp only [ofSteps, hsteps] at herror
      obtain rfl := Except.error.inj herror
      refine .rejected [] token rest rfl (.unexpected _) (completable_steps_nil ends)
        fun others => ?_
      rw [List.nil_append, readStepsOnto.eq_def]
      simp [htoken, ofSteps, hsteps]
  | case3 found token _ hrole =>
      obtain rfl := Except.error.inj herror
      obtain rfl := Token.role_eq_iff (m := .arrow).mp hrole
      exact .ended (.danglingArrow rfl) completable_steps_arrow
  | case4 found token htoken hrole next after hnext =>
      obtain rfl := Except.error.inj herror
      obtain rfl := Token.role_eq_iff (m := .arrow).mp hrole
      -- The arrow is blamed, but what cannot be completed is the token behind it.
      refine .dangling [] next after rfl rfl (hends next hnext) completable_steps_arrow
        (fun value => ?_) fun others => ?_
      · have hphrase := stepsPhrase_step ends (.atom value) (.inr ⟨next, hnext, rfl⟩)
        exact completable_of_phrase hphrase
      · rw [List.nil_append, readStepsOnto.eq_def]
        simp [htoken, hnext, Token.Mark.role]
  | case5 found token htoken hrole next after hnext ih =>
      obtain rfl := Token.role_eq_iff (m := .arrow).mp hrole
      refine (ih herror).lift [.mark .arrow] (fun others hhead hothers => ?_)
        fun phrase hphrase => completable_of_phrase hphrase.arrow
      obtain ⟨others, rfl⟩ := List.head?_eq_some_iff.mp hhead
      exact (readStepsOnto_arrow hends (by simpa using hnext) found others).trans hothers
  | case6 found token rest htoken hrole other hpart =>
      obtain rfl := Except.error.inj herror
      obtain rfl := Token.role_eq_iff (m := .openBrace).mp hrole
      refine (hmap hpart hdeep).lift [] (fun others hhead hothers => ?_) fun phrase hphrase => ?_
      · obtain ⟨others, rfl⟩ := List.head?_eq_some_iff.mp hhead
        rw [List.nil_append, readStepsOnto_map_eq_bind (by simpa using htoken), hothers]
        rfl
      · obtain ⟨entries, hentries⟩ := hphrase
        exact completable_of_step (.map hentries)
  | case7 found token rest htoken hrole entries after hread ih =>
      obtain ⟨front, hfront, hentries, hheight⟩ := mapReader_eq_ok_iff.mp hread
      rw [hfront]
      apply located_after_step (.map hentries) (fun others _ => ?_) (ih herror)
      exact hentries.readStepsOnto_eq hends (hentries.read_eq limit others hheight) found
  | case8 found token htoken hrole ih =>
      rw [Token.eq_identifier_of_role hrole]
      exact located_after_atom hends (.identifier token.text) (by simp [Pattern.EndsBefore])
        (ih herror)
  | case9 found token htoken hrole next inner hnext other hpart =>
      obtain rfl := Except.error.inj herror
      obtain rfl := Token.role_eq_iff (m := .openParen).mp hnext
      have hname := ends_identifier_eq_false hrole htoken
      rw [Token.eq_identifier_of_role hrole]
      refine (Settings.locates_read hpart hdeep).lift [.identifier token.text, .mark .openParen]
        (fun others _ hothers => ?_) fun phrase hphrase => ?_
      · rw [List.cons_append, List.singleton_append, readStepsOnto_config_eq_bind hname, hothers]
        rfl
      · obtain ⟨front, properties, rfl, hproperties⟩ := hphrase
        have hsettings := Settings.Derives.collect hproperties (Settings.collects_ofList properties)
        exact completable_of_step (.config token.text hsettings)
  | case10 found token htoken hrole next inner hnext settings after hread ih =>
      obtain rfl := Token.role_eq_iff (m := .openParen).mp hnext
      obtain ⟨front, rfl, hsettings⟩ := Settings.read_eq_ok_iff.mp hread
      have hlocated := located_after_step (.config token.text hsettings)
        (fun others _ => readStepsOnto_derives hends token.text hsettings found others)
        (ih herror)
      rw [List.cons_append, List.cons_append, ← List.append_cons] at hlocated
      rwa [Token.eq_identifier_of_role hrole]
  | case11 found token htoken hrole next inner hnext ih =>
      rw [Token.eq_identifier_of_role hrole]
      apply located_after_atom hends (.identifier token.text) _ (ih herror)
      apply Pattern.endsBefore_cons
      rintro rfl
      exact hnext rfl
  | case12 found token rest htoken hrole ih =>
      rw [Token.eq_literal_of_role hrole]
      exact located_after_atom hends (.literal token.text) trivial (ih herror)
  | case13 found token rest htoken harrow hbrace hname hliteral =>
      obtain rfl := Except.error.inj herror
      refine .rejected [] token rest rfl (.unexpected _) (completable_steps_nil ends)
        fun others => ?_
      rw [List.nil_append, readStepsOnto.eq_def]
      simp [htoken]

theorem takesFront_flowReader (limit room : Nat) (hends : EndsLikeEntry ends) :
    TakesFront (flowReader limit ends room).read Derives := by
  intro tokens rest expr hread
  obtain ⟨⟨front, rfl, hderives, hheight⟩, hstops⟩ := (flowReader_eq_ok_iff hends).mp hread
  refine ⟨front, rfl, hderives, fun others hhead => ?_⟩
  apply hderives.read_eq limit hends hheight
  intro token htoken
  rw [hhead] at htoken
  exact hstops token htoken

end Flows

/-! ## Maps -/

section Maps

variable {limit room : Nat}

theorem EntriesPhrase.cons {keyTokens valueTokens rest : List Token} {key : Pattern}
    {value : Expr} (hkey : Pattern.Derives keyTokens key) (hvalue : Derives valueTokens value)
    (hrest : EntriesPhrase rest) :
    EntriesPhrase (keyTokens ++ .mark .colon :: (valueTokens ++ .mark .comma :: rest)) := by
  obtain ⟨front, entries, rfl, hentries⟩ := hrest
  exact ⟨keyTokens ++ .mark .colon :: (valueTokens ++ .mark .comma :: front), _, by simp,
    .cons hkey hvalue hentries⟩

theorem entriesPhrase_one {keyTokens valueTokens : List Token} {key : Pattern}
    {value : Expr} (hkey : Pattern.Derives keyTokens key) (hvalue : Derives valueTokens value) :
    EntriesPhrase (keyTokens ++ .mark .colon :: (valueTokens ++ [.mark .closeBrace])) :=
  ⟨keyTokens ++ .mark .colon :: valueTokens, _, by simp, .one hkey hvalue⟩

/-- A key can always be given a value. -/
theorem completable_key {keyTokens : List Token} {key : Pattern}
    (hkey : Pattern.Derives keyTokens key) : Completable EntriesPhrase keyTokens :=
  ⟨_, entriesPhrase_one hkey (DerivesStep.atom (.literal "")).derives⟩

/-- A value, with or without the token that ends it, can be followed by the rest
of the entries. -/
theorem completable_value {keyTokens valueTokens : List Token} {key : Pattern}
    (hkey : Pattern.Derives keyTokens key)
    (hvalue : FlowPhrase Token.endsEntry valueTokens) :
    Completable EntriesPhrase (keyTokens ++ .mark .colon :: valueTokens) := by
  obtain ⟨front, rest, value, rfl, hvalue, hrest⟩ := hvalue
  have hclose := entriesPhrase_one hkey hvalue
  rcases hrest with rfl | ⟨token, htoken, rfl⟩
  · refine ⟨[.mark .closeBrace], ?_⟩
    simpa using hclose
  · rcases Token.endsEntry_iff.mp htoken with rfl | rfl
    · obtain ⟨rest, hrest⟩ := completable_key (.atom (.literal ""))
      refine ⟨(Atom.literal "").token :: rest, ?_⟩
      simpa using hrest.cons hkey hvalue
    · exact completable_of_phrase hclose

/-- Faults after an entry lie where the entries cannot be completed, if this holds
for the entries that are left. -/
theorem located_readAfterEntry {key : TokenReader Pattern} {value : TokenReader Expr}
    {keyTokens valueTokens rest : List Token} {pattern : Pattern} {expr : Expr}
    {found : List (Pattern × Expr)} {fault : Fault}
    (hkey : Pattern.Derives keyTokens pattern) (hvalue : Derives valueTokens expr)
    (hstops : StopsAt Token.endsEntry rest)
    (herror : readAfterEntry key value found rest = .error fault)
    (hentries : ∀ others, others.length < rest.length →
      readEntriesOnto key value found others = .error fault →
        Located (fun others => readEntriesOnto key value found others = .error fault)
          EntriesPhrase others fault) :
    Located (fun others => readAfterEntry key value found others = .error fault)
      (fun others => EntriesPhrase (keyTokens ++ .mark .colon :: (valueTokens ++ others)))
      rest fault := by
  cases rest with
  | nil =>
      obtain rfl := Except.error.inj herror
      exact .ended .missing ⟨[.mark .closeBrace], entriesPhrase_one hkey hvalue⟩
  | cons separator rest =>
      by_cases hclose : separator.role = .closeBrace
      · rw [readAfterEntry, if_pos hclose] at herror
        contradiction
      · obtain rfl := hstops.eq_comma hclose
        refine (hentries rest (Nat.lt_succ_self _) herror).lift [.mark .comma]
          (fun others _ hothers => hothers) fun phrase hphrase => ?_
        exact completable_of_phrase (hphrase.cons hkey hvalue)

/-- Faults after a key lie where the entries cannot be completed, if this holds for
the value and for the entries that are left. -/
theorem located_readAfterKey {key : TokenReader Pattern} {keyTokens rest : List Token}
    {pattern : Pattern} {found : List (Pattern × Expr)} {fault : Fault}
    (hkey : Pattern.Derives keyTokens pattern)
    (hvalue : Locates (flowReader limit Token.endsEntry room).read (FlowPhrase Token.endsEntry))
    (herror : readAfterKey key (flowReader limit Token.endsEntry room) found pattern rest =
      .error fault)
    (hdeep : ¬ fault.IsTooDeep)
    (hentries : ∀ expr others, others.length < rest.length →
      readEntriesOnto key (flowReader limit Token.endsEntry room) ((pattern, expr) :: found)
          others = .error fault →
        Located (fun others => readEntriesOnto key (flowReader limit Token.endsEntry room)
          ((pattern, expr) :: found) others = .error fault) EntriesPhrase others fault) :
    Located (fun others =>
        readAfterKey key (flowReader limit Token.endsEntry room) found pattern others =
          .error fault)
      (fun others => EntriesPhrase (keyTokens ++ others)) rest fault := by
  cases rest with
  | nil =>
      obtain rfl := Except.error.inj herror
      exact .ended .missing (completable_key hkey)
  | cons colon rest =>
      by_cases hcolon : colon.role = .colon
      · obtain rfl := Token.role_eq_iff (m := .colon).mp hcolon
        have hcomplete : ∀ phrase, FlowPhrase Token.endsEntry phrase →
            Completable (fun others => EntriesPhrase (keyTokens ++ .mark .colon :: others))
              phrase := by
          intro phrase hphrase
          obtain ⟨more, hmore⟩ := completable_value hkey hphrase
          rw [List.append_assoc] at hmore
          exact ⟨more, hmore⟩
        have hfront := takesFront_flowReader limit room endsLikeEntry_endsEntry
        refine (located_bind hvalue hfront hcomplete herror hdeep ?_).lift [.mark .colon]
          (fun others _ hothers => hothers) fun phrase hphrase => completable_of_phrase hphrase
        intro valueTokens after expr htokens hderives hread hafter
        have hlt := (flowReader limit Token.endsEntry room).shrinks hread
        have hstops := ((flowReader_eq_ok_iff endsLikeEntry_endsEntry).mp hread).2
        apply located_readAfterEntry hkey hderives hstops hafter
        intro others hothers
        exact hentries expr others (Nat.lt_succ_of_lt (Nat.lt_trans hothers hlt))
      · have hrefused : ∀ others, readAfterKey key (flowReader limit Token.endsEntry room) found
            pattern (colon :: others) = .error (.unexpected .mapColon colon) :=
          fun others => if_pos hcolon
        rw [hrefused] at herror
        obtain rfl := Except.error.inj herror
        exact .rejected [] colon rest rfl (.unexpected _) (completable_key hkey) hrefused

theorem locates_readEntriesOnto
    (hkey : Locates (Pattern.reader limit room).read Pattern.Phrase)
    (hvalue : Locates (flowReader limit Token.endsEntry room).read (FlowPhrase Token.endsEntry))
    (found : List (Pattern × Expr)) :
    Locates (readEntriesOnto (Pattern.reader limit room)
      (flowReader limit Token.endsEntry room) found) EntriesPhrase := by
  intro tokens fault herror hdeep
  rw [funext (readEntriesOnto_eq_bind _ _ found)] at herror ⊢
  have hcomplete : ∀ phrase, Pattern.Phrase phrase → Completable EntriesPhrase phrase := by
    rintro phrase ⟨key, hkey⟩
    exact completable_key hkey
  apply located_bind hkey (Pattern.takesFront_reader limit room) hcomplete herror hdeep
  intro keyTokens rest pattern htokens hderives hread hnext
  have hlt := (Pattern.reader limit room).shrinks hread
  apply located_readAfterKey hderives hvalue hnext hdeep
  -- What is left after an entry is shorter than what was left after its key.
  intro expr others hothers herror
  exact locates_readEntriesOnto hkey hvalue ((pattern, expr) :: found) herror hdeep
termination_by tokens => tokens.length
decreasing_by exact Nat.lt_trans hothers hlt

/-- There are entries unless the braces are closed at once. -/
theorem readMapWith_of_head? (key : TokenReader Pattern) (value : TokenReader Expr)
    {tokens : List Token} (hclose : tokens.head? ≠ some (.mark .closeBrace)) :
    readMapWith key value (.mark .openBrace :: tokens) = readEntriesOnto key value [] tokens := by
  cases tokens with
  | nil => rfl
  | cons token rest =>
      have hrole : token.role ≠ .closeBrace := Token.role_ne_of_head?_ne hclose
      exact if_neg hrole

theorem locates_readMapWith
    (hkey : Locates (Pattern.reader limit room).read Pattern.Phrase)
    (hvalue : Locates (flowReader limit Token.endsEntry room).read (FlowPhrase Token.endsEntry)) :
    Locates (readMapWith (Pattern.reader limit room) (flowReader limit Token.endsEntry room))
      MapPhrase := by
  intro tokens fault herror hdeep
  have hopen : Completable MapPhrase [] := ⟨_, [], .empty⟩
  cases tokens with
  | nil =>
      obtain rfl := Except.error.inj herror
      exact .ended .missing hopen
  | cons brace rest =>
      by_cases hbrace : brace.role = .openBrace
      · obtain rfl := Token.role_eq_iff (m := .openBrace).mp hbrace
        by_cases hclose : rest.head? = some (.mark .closeBrace)
        · obtain ⟨others, rfl⟩ := List.head?_eq_some_iff.mp hclose
          contradiction
        · rw [readMapWith_of_head? _ _ hclose] at herror
          refine (locates_readEntriesOnto hkey hvalue [] herror hdeep).lift [.mark .openBrace]
            (fun others hhead hothers => ?_) fun phrase hphrase => ?_
          · rw [← hhead] at hclose
            exact (readMapWith_of_head? _ _ hclose).trans hothers
          · obtain ⟨front, entries, rfl, hentries⟩ := hphrase
            exact completable_of_phrase ⟨entries, .entries hentries⟩
      · have hother : ∀ others, readMapWith (Pattern.reader limit room)
            (flowReader limit Token.endsEntry room) (brace :: others) =
              .error (.unexpected .mapStart brace) := fun others => by
          simp [readMapWith, expectRole, expectToken, hbrace]
        rw [hother] at herror
        obtain rfl := Except.error.inj herror
        exact .rejected [] brace rest rfl (.unexpected _) hopen hother

end Maps

/-- Faults in flows and in maps lie where they cannot be completed. -/
theorem locates_room (limit room : Nat) :
    (∀ ends, EndsLikeEntry ends →
        Locates (flowReader limit ends room).read (FlowPhrase ends)) ∧
      Locates (mapReader limit room).read MapPhrase := by
  induction room with
  | zero =>
      constructor
      · exact fun ends _ => locates_tooDeep limit (FlowPhrase ends)
      · exact locates_tooDeep limit MapPhrase
  | succ room ih =>
      obtain ⟨hflow, hmap⟩ := ih
      constructor
      · intro ends hends tokens fault herror hdeep
        exact (locates_readStepsOnto hends hmap [] herror hdeep).lift []
          (fun _ _ hothers => hothers) fun _ hphrase => completable_of_phrase hphrase.flowPhrase
      · exact locates_readMapWith (Pattern.locates_reader limit room)
          (hflow Token.endsEntry endsLikeEntry_endsEntry)

end Dataflow.Expr
