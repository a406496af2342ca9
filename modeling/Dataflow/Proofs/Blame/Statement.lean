import Dataflow.Proofs.Blame.Flow

/-!
# Faults in statements

The reader for statements finds its faults at the first token after which no
statement can be completed.  An import is only looked at when it has the right
number of tokens, so for imports this holds with that many tokens only, and what
cannot be completed has to be said with the grammar instead of the reader.
-/

namespace Dataflow

/-! ## Types -/

namespace Signature

def Phrase (tokens : List Token) : Prop :=
  ∃ signature, Derives tokens signature

theorem read_arrow (name : String) (tokens : List Token) :
    read (.identifier name :: .mark .arrow :: tokens) =
      expectRole .identifier .outputType tokens >>= fun (output, rest) =>
        .ok (.flow name output.text, rest) := rfl

theorem endsBefore_of_read {tokens rest : List Token} {signature : Signature}
    (hread : read tokens = .ok (signature, rest)) : signature.EndsBefore rest := by
  obtain ⟨front, rfl, hderives⟩ := derives_of_read hread
  cases hderives with
  | flow input output => trivial
  | simple name =>
      intro hhead
      obtain ⟨others, rfl⟩ := List.head?_eq_some_iff.mp hhead
      -- After an arrow the reader goes for an output type and never answers with one name.
      rw [List.singleton_append, read_arrow] at hread
      obtain ⟨output, after, -, -, hflow⟩ := expectRole_bind_eq_ok_iff.mp hread
      cases hflow

theorem takesFront_read : TakesFront read Derives := by
  intro tokens rest signature hread
  obtain ⟨front, rfl, hderives⟩ := derives_of_read hread
  have hends := endsBefore_of_read hread
  refine ⟨front, rfl, hderives, fun others hhead => hderives.read_eq ?_⟩
  cases signature with
  | flow input output => trivial
  | simple name =>
      intro harrow
      exact hends (hhead.symm.trans harrow)

/-- Faults in a type lie where no type can be completed. -/
theorem locates_read : Locates read Phrase := by
  have hopen : Completable Phrase [] := ⟨_, _, .simple ""⟩
  apply locates_expectRole_bind hopen
  intro base hbase tokens fault herror hdeep
  rw [Token.eq_identifier_of_role hbase] at herror ⊢
  cases tokens with
  | nil => contradiction
  | cons next after =>
      by_cases harrow : next.role = .arrow
      · obtain rfl := Token.role_eq_iff (m := .arrow).mp harrow
        have houtput : Completable (fun others =>
            Phrase (.identifier base.text :: .mark .arrow :: others)) [] :=
          ⟨_, _, .flow base.text ""⟩
        have hlocates : Locates (fun others => expectRole .identifier .outputType others >>=
              fun (output, rest) => .ok (Signature.flow base.text output.text, rest))
            fun others => Phrase (.identifier base.text :: .mark .arrow :: others) := by
          apply locates_expectRole_bind houtput
          intro output _ tokens fault herror
          contradiction
        refine (hlocates herror hdeep).lift [.mark .arrow] (fun others _ hothers => hothers)
          fun phrase hphrase => completable_of_phrase hphrase
      · simp only [harrow, if_false] at herror
        contradiction

end Signature

/-! ## Assignments -/

namespace Assignment

/-- An assignment from its equals sign on. -/
def readValue (limit room : Nat) (name : String) (signature : Option Signature)
    (tokens : List Token) : Except Fault Assignment :=
  expectRole .equals .assignment tokens >>= fun (_, rest) =>
    if rest.isEmpty then .error .missing
    else
      (Expr.flowReader limit (fun _ => false) room).read rest >>= fun (value, _) =>
        .ok { name, signature, value }

/-- The tokens after the name of an assignment. -/
def readAfterName (limit room : Nat) (name : String) (tokens : List Token) :
    Except Fault Assignment :=
  readSignature tokens >>= fun (signature, rest) => readValue limit room name signature rest

theorem readAfterName_colon (limit room : Nat) (name : String) (tokens : List Token) :
    readAfterName limit room name (.mark .colon :: tokens) =
      Signature.read tokens >>= fun (signature, rest) =>
        readValue limit room name (some signature) rest := by
  rw [readAfterName, readSignature, if_pos (show (Token.mark .colon).role = .colon from rfl)]
  cases Signature.read tokens <;> rfl

theorem readAfterName_of_ne {next : Token} (hnext : next.role ≠ .colon) (limit room : Nat)
    (name : String) (tokens : List Token) :
    readAfterName limit room name (next :: tokens) =
      readValue limit room name none (next :: tokens) := by
  rw [readAfterName, readSignature, if_neg hnext]
  rfl

theorem read_succ (limit room : Nat) (tokens : List Token) :
    read limit (room + 1) tokens =
      expectRole .identifier .assignedName tokens >>= fun (name, rest) =>
        readAfterName limit room name.text rest := rfl

def Phrase (tokens : List Token) : Prop :=
  ∃ assignment, Derives tokens assignment

def ValuePhrase (tokens : List Token) : Prop :=
  ∃ front value, tokens = .mark .equals :: front ∧ Expr.Derives front value

theorem completable_value : Completable ValuePhrase [.mark .equals] :=
  ⟨_, _, _, rfl, (Expr.DerivesStep.atom (.literal "")).derives⟩

theorem locates_readValue (limit room : Nat) (name : String) (signature : Option Signature) :
    Locates (readValue limit room name signature) ValuePhrase := by
  apply locates_expectRole_bind completable_value.of_append
  intro equals hequals tokens fault herror hdeep
  obtain rfl := Token.role_eq_iff (m := .equals).mp hequals
  cases tokens with
  | nil =>
      obtain rfl := Except.error.inj herror
      exact .ended .missing completable_value
  | cons token rest =>
      rcases bind_eq_error_iff.mp herror with hpart | ⟨value, -, hvalue⟩
      · have hlocated := (Expr.locates_room limit room).1 _ Expr.endsLikeEntry_never hpart hdeep
        refine hlocated.lift [] (fun others hhead hothers => ?_) fun phrase hphrase => ?_
        · obtain ⟨others, rfl⟩ := List.head?_eq_some_iff.mp hhead
          exact bind_eq_error_iff.mpr (.inl hothers)
        · obtain ⟨front, rest, value, rfl, hvalue, rfl | ⟨token, hfalse, -⟩⟩ := hphrase
          · exact completable_of_phrase ⟨_, value, rfl, (List.append_nil front).symm ▸ hvalue⟩
          · contradiction
      · contradiction

theorem ValuePhrase.untyped {tokens : List Token} (hphrase : ValuePhrase tokens)
    (name : String) : Phrase (.identifier name :: tokens) := by
  obtain ⟨front, value, rfl, hvalue⟩ := hphrase
  exact ⟨_, .untyped name hvalue⟩

theorem ValuePhrase.typed {typeTokens tokens : List Token} {signature : Signature}
    (hphrase : ValuePhrase tokens) (name : String)
    (htype : Signature.Derives typeTokens signature) :
    Phrase (.identifier name :: .mark .colon :: (typeTokens ++ tokens)) := by
  obtain ⟨front, value, rfl, hvalue⟩ := hphrase
  exact ⟨_, .typed name htype hvalue⟩

theorem locates_readAfterName (limit room : Nat) (name : String) :
    Locates (readAfterName limit room name) fun rest => Phrase (.identifier name :: rest) := by
  intro tokens fault herror hdeep
  cases tokens with
  | nil =>
      obtain rfl := Except.error.inj herror
      obtain ⟨more, hmore⟩ := completable_value
      exact .ended .missing ⟨_, hmore.untyped name⟩
  | cons next rest =>
      by_cases hcolon : next.role = .colon
      · obtain rfl := Token.role_eq_iff (m := .colon).mp hcolon
        rw [readAfterName_colon] at herror
        have hcomplete : ∀ phrase, Signature.Phrase phrase →
            Completable (fun others => Phrase (.identifier name :: .mark .colon :: others))
              phrase := by
          intro phrase ⟨signature, htype⟩
          obtain ⟨more, hmore⟩ := completable_value
          exact ⟨_, hmore.typed name htype⟩
        refine (located_bind Signature.locates_read Signature.takesFront_read hcomplete herror
          hdeep ?_).lift [.mark .colon] (fun others _ hothers => ?_)
          fun phrase hphrase => completable_of_phrase hphrase
        · intro front after signature htokens htype hread hvalue
          exact (locates_readValue limit room name (some signature) hvalue hdeep).lift []
            (fun others _ hothers => hothers)
            fun phrase hphrase => completable_of_phrase (hphrase.typed name htype)
        · exact (readAfterName_colon _ _ _ _).trans hothers
      · rw [readAfterName_of_ne hcolon] at herror
        refine (locates_readValue limit room name none herror hdeep).lift []
          (fun others hhead hothers => ?_)
          fun phrase hphrase => completable_of_phrase (hphrase.untyped name)
        obtain ⟨others, rfl⟩ := List.head?_eq_some_iff.mp hhead
        exact (readAfterName_of_ne hcolon _ _ _ _).trans hothers

/-- Faults in an assignment lie where no assignment can be completed. -/
theorem locates_read (limit room : Nat) : Locates (read limit room) Phrase := by
  cases room with
  | zero =>
      intro tokens fault herror hdeep
      exact absurd herror (tooDeep_ne_error hdeep)
  | succ room =>
      obtain ⟨more, hmore⟩ := completable_value
      rw [funext (read_succ limit room)]
      apply locates_expectRole_bind ⟨_, hmore.untyped ""⟩
      intro name hname
      rw [Token.eq_identifier_of_role hname]
      exact locates_readAfterName limit room name.text

end Assignment

theorem Assignment.Derives.exists_cons {tokens : List Token} {assignment : Assignment}
    (hderives : Assignment.Derives tokens assignment) :
    ∃ name rest, tokens = .identifier name :: rest := by
  cases hderives with
  | untyped name hvalue => exact ⟨name, _, rfl⟩
  | typed name htype hvalue => exact ⟨name, _, rfl⟩

/-! ## Statements -/

namespace Statement

def Phrase (tokens : List Token) : Prop :=
  ∃ statement, Derives tokens statement

/-- What is refused for another reason than its depth is a statement under no
limit. -/
theorem not_phrase_of_read {limit : Nat} {tokens : List Token} {fault : Fault}
    (herror : read limit tokens = .error fault) (hdeep : ¬ fault.IsTooDeep) :
    ¬ Phrase tokens := by
  rintro ⟨statement, hderives⟩
  have hgated := gated_read (Nat.le_max_left limit (statement.depth + 1)) tokens
  have hread := hderives.read_eq (Nat.lt_of_succ_le (Nat.le_max_right limit _))
  rw [herror] at hgated
  rw [hgated.eq_error hdeep] at hread
  contradiction

/-! ### Imports -/

/-- An import after its keyword, whatever the number of its tokens. -/
def readImportBody (tokens : List Token) : Except Fault Statement := do
  let (name, rest) ← expectRole .identifier .importedName tokens
  let (_, rest) ← expectRole .colon .importColon rest
  let (signature, rest) ← Signature.read rest
  match rest with
  | [] => return .importName name.text signature
  | next :: _ => .error (.unexpected .importArrow next)

theorem readImport_of_length {tokens : List Token}
    (hlength : tokens.length = 3 ∨ tokens.length = 5) (limit room : Nat) (keyword : Token) :
    readImport limit (room + 1) keyword tokens = readImportBody tokens := by
  have hcount : ¬ (tokens.length ≠ 3 ∧ tokens.length ≠ 5) := by omega
  rw [readImport, if_neg hcount]
  rfl

def ImportPhrase (tokens : List Token) : Prop :=
  ∃ name front signature, tokens = .identifier name :: .mark .colon :: front ∧
    Signature.Derives front signature

theorem locates_readImportBody : Locates readImportBody ImportPhrase := by
  have hphrase : ∀ name, ImportPhrase [.identifier name, .mark .colon, .identifier ""] :=
    fun name => ⟨name, _, _, rfl, .simple ""⟩
  apply locates_expectRole_bind ⟨_, hphrase ""⟩
  intro name hname
  rw [Token.eq_identifier_of_role hname]
  have hopen : Completable (fun rest => ImportPhrase (.identifier name.text :: rest)) [] :=
    ⟨_, hphrase name.text⟩
  apply locates_expectRole_bind hopen
  intro colon hcolon tokens fault herror hdeep
  obtain rfl := Token.role_eq_iff (m := .colon).mp hcolon
  have hcomplete : ∀ phrase, Signature.Phrase phrase →
      Completable (fun rest => ImportPhrase (.identifier name.text :: .mark .colon :: rest))
        phrase := by
    rintro phrase ⟨signature, htype⟩
    exact completable_of_phrase ⟨name.text, phrase, signature, rfl, htype⟩
  apply located_bind Signature.locates_read Signature.takesFront_read hcomplete herror hdeep
  intro front rest signature htokens htype hread hrest
  cases rest with
  | nil => contradiction
  | cons next rest =>
      obtain rfl := Except.error.inj hrest
      obtain ⟨more, hmore⟩ := hcomplete front ⟨signature, htype⟩
      exact .rejected [] next rest rfl (.unexpected _) ⟨more, hmore⟩ fun _ => rfl

/-- What follows the keyword of an import. -/
theorem phrase_import_iff {tokens : List Token} :
    Phrase (.mark .importWord :: tokens) ↔ ImportPhrase tokens := by
  constructor
  · rintro ⟨statement, hderives⟩
    generalize htokens : .mark .importWord :: tokens = all at hderives
    cases hderives with
    | empty => contradiction
    | importName name htype =>
        obtain ⟨-, rfl⟩ := List.cons.inj htokens
        exact ⟨name, _, _, rfl, htype⟩
    | exportFlow hassignment => simp at htokens
    | assign hassignment =>
        obtain ⟨name, rest, rfl⟩ := hassignment.exists_cons
        simp at htokens
  · rintro ⟨name, front, signature, rfl, htype⟩
    exact ⟨_, .importName name htype⟩

theorem readImportBody_of_phrase {tokens : List Token} (hphrase : ImportPhrase tokens) :
    ∃ statement, readImportBody tokens = .ok statement := by
  obtain ⟨name, front, signature, rfl, htype⟩ := hphrase
  have hlength : (Token.identifier name :: .mark .colon :: front).length = 3 ∨
      (Token.identifier name :: .mark .colon :: front).length = 5 := by
    cases htype <;> simp
  rw [← readImport_of_length hlength 0 0 (.mark .importWord)]
  exact ⟨_, readImport_eq_ok_iff.mpr ⟨Nat.zero_lt_one, name, front, signature, rfl, htype, rfl⟩⟩

theorem located_readImport {limit room : Nat} {keyword : Token} {tokens : List Token}
    {fault : Fault} (herror : readImport limit room keyword tokens = .error fault)
    (hdeep : ¬ fault.IsTooDeep) (hlength : tokens.length = 3 ∨ tokens.length = 5) :
    Located (fun others => ¬ Phrase others) Phrase (.mark .importWord :: tokens) fault := by
  cases room with
  | zero => exact absurd herror (tooDeep_ne_error hdeep)
  | succ room =>
      rw [readImport_of_length hlength] at herror
      refine (locates_readImportBody herror hdeep).lift [.mark .importWord]
        (fun others _ hothers hphrase => ?_)
        fun phrase hphrase => completable_of_phrase (phrase_import_iff.mpr hphrase)
      rw [List.singleton_append, phrase_import_iff] at hphrase
      obtain ⟨statement, hread⟩ := readImportBody_of_phrase hphrase
      rw [hothers] at hread
      contradiction

/-! ### Exports and assignments -/

theorem read_of_identifier {first : Token} (hrole : first.role = .identifier) (room : Nat)
    (tokens : List Token) :
    read (room + 1) (first :: tokens) =
      Assignment.read (room + 1) room (first :: tokens) >>= fun assignment =>
        .ok (.assign assignment) := by
  rw [read, hrole]
  rfl

theorem readExport_cons (limit room : Nat) (keyword token : Token) (tokens : List Token) :
    readExport limit (room + 1) keyword (token :: tokens) =
      Assignment.read limit room (token :: tokens) >>= fun assignment =>
        .ok (.exportFlow assignment) := rfl

theorem located_readExport {room : Nat} {tokens : List Token} {fault : Fault}
    (herror : read (room + 1) (.mark .exportWord :: tokens) = .error fault)
    (hdeep : ¬ fault.IsTooDeep) :
    Located (fun others => ¬ Phrase others) Phrase (.mark .exportWord :: tokens) fault := by
  change readExport (room + 1) room (.mark .exportWord) tokens = .error fault at herror
  cases room with
  | zero => exact absurd herror (tooDeep_ne_error hdeep)
  | succ room =>
      cases tokens with
      | nil =>
          obtain rfl := Except.error.inj herror
          obtain ⟨more, hmore⟩ := Assignment.completable_value
          obtain ⟨assignment, hassignment⟩ := hmore.untyped ""
          exact .ended .missing ⟨_, _, .exportFlow hassignment⟩
      | cons token rest =>
          rw [readExport_cons, bind_ok_eq_error_iff] at herror
          refine (Assignment.locates_read _ _ herror hdeep).lift [.mark .exportWord]
            (fun others hhead hothers => ?_) fun phrase hphrase => ?_
          · obtain ⟨others, rfl⟩ := List.head?_eq_some_iff.mp hhead
            have hread : read (room + 2) (.mark .exportWord :: token :: others) =
                .error fault :=
              (readExport_cons _ _ (.mark .exportWord) _ _).trans
                (bind_ok_eq_error_iff.mpr hothers)
            exact not_phrase_of_read hread hdeep
          · obtain ⟨assignment, hassignment⟩ := hphrase
            exact completable_of_phrase ⟨_, .exportFlow hassignment⟩

theorem located_readAssign {room : Nat} {first : Token} (hrole : first.role = .identifier)
    {tokens : List Token} {fault : Fault}
    (herror : read (room + 1) (first :: tokens) = .error fault) (hdeep : ¬ fault.IsTooDeep) :
    Located (fun others => ¬ Phrase others) Phrase (first :: tokens) fault := by
  rw [read_of_identifier hrole, bind_ok_eq_error_iff] at herror
  refine (Assignment.locates_read _ _ herror hdeep).lift [] (fun others hhead hothers => ?_)
    fun phrase hphrase => ?_
  · obtain ⟨others, rfl⟩ := List.head?_eq_some_iff.mp hhead
    have hread : read (room + 1) (first :: others) = .error fault :=
      (read_of_identifier hrole room others).trans (bind_ok_eq_error_iff.mpr hothers)
    exact not_phrase_of_read hread hdeep
  · obtain ⟨assignment, hassignment⟩ := hphrase
    exact completable_of_phrase ⟨_, .assign hassignment⟩

/-- Faults in a statement lie where no statement can be completed, unless the
number of tokens of an import is at fault. -/
theorem located_of_read {limit : Nat} {tokens : List Token} {fault : Fault}
    (herror : read limit tokens = .error fault) (hdeep : ¬ fault.IsTooDeep)
    (himport : tokens.head? ≠ some (.mark .importWord) ∨ tokens.length = 4 ∨
      tokens.length = 6) :
    Located (fun others => ¬ Phrase others) Phrase tokens fault := by
  cases limit with
  | zero => exact absurd herror (tooDeep_ne_error hdeep)
  | succ room =>
      cases tokens with
      | nil => contradiction
      | cons first rest =>
          have herror' := herror
          rw [read] at herror'
          split at herror'
          · next hrole =>
            obtain rfl := Token.role_eq_iff (m := .importWord).mp hrole
            apply located_readImport herror' hdeep
            rcases himport with hhead | hlength
            · exact absurd rfl hhead
            · exact hlength.imp Nat.succ.inj Nat.succ.inj
          · next hrole =>
            obtain rfl := Token.role_eq_iff (m := .exportWord).mp hrole
            exact located_readExport herror hdeep
          · next hrole => exact located_readAssign hrole herror hdeep
          · next himp hexp hname =>
            obtain rfl := Except.error.inj herror'
            refine .rejected [] first rest rfl (.unexpected _)
              (completable_of_phrase ⟨_, .empty⟩) fun others => ?_
            have hread : read (room + 1) (first :: others) =
                .error (.unexpected .assignedName first) := by
              rw [read]
              split <;> first | contradiction | rfl
            exact not_phrase_of_read hread hdeep

end Statement

end Dataflow
