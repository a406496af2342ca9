import Dataflow.Proofs.Lexing

/-!
# Taking tokens one at a time

The answers of a token stream are told by the tokens of its source and by their
number alone: the tokens in order as long as the limit admits them, then a refusal
for every further token, and no token from then on.  A refusal uses its token up, so
nothing that is asked later depends on whether an earlier answer was a refusal.
Taking all tokens of a source therefore succeeds with all of them or not at all.
-/

namespace Dataflow

namespace TokenStream

/-- The answer to a call with so many calls before it, when `left` tokens may still be
handed out of those that follow. -/
def answerAt (tokens : List Token) (left limit call : Nat) :
    Except SyntaxError (Option Token) :=
  match tokens[call]? with
  | none => .ok none
  | some token => if call < left then .ok (some token) else .error (.tooManyTokens limit)

theorem answerAt_of_lt {tokens : List Token} {token : Token} {left call : Nat}
    (htoken : tokens[call]? = some token) (hcall : call < left) (limit : Nat) :
    answerAt tokens left limit call = .ok (some token) := by
  rw [answerAt, htoken]
  exact if_pos hcall

theorem answerAt_of_le {tokens : List Token} {left call : Nat} (hcall : call < tokens.length)
    (hleft : left ≤ call) (limit : Nat) :
    answerAt tokens left limit call = .error (.tooManyTokens limit) := by
  rw [answerAt, List.getElem?_eq_getElem hcall]
  exact if_neg (Nat.not_lt_of_le hleft)

theorem answerAt_of_length_le {tokens : List Token} {call : Nat}
    (hcall : tokens.length ≤ call) (left limit : Nat) :
    answerAt tokens left limit call = .ok none := by
  rw [answerAt, List.getElem?_eq_none hcall]

/-- The first call uses up the first token and, if there is one left, a place for
it. -/
theorem answerAt_cons_succ (token : Token) (tokens : List Token) (left limit call : Nat) :
    answerAt (token :: tokens) left limit (call + 1) =
      answerAt tokens (left - 1) limit call := by
  rw [answerAt, answerAt, List.getElem?_cons_succ]
  cases tokens[call]? with
  | none => rfl
  | some next => exact if_congr Nat.lt_sub_iff_add_lt.symm rfl rfl

theorem answers_succ (stream : TokenStream) (count : Nat) :
    answers (count + 1) stream = stream.next.1 :: answers count stream.next.2 := rfl

/-- The answers to any number of calls, by induction on the calls: each of them leaves
a stream whose answers are those of the calls that are still to come. -/
theorem answers_eq (count : Nat) (cs : List Char) (left limit : Nat) :
    answers count ⟨cs, left, limit⟩ =
      (List.range count).map (answerAt ((words cs).map Token.ofWord) left limit) := by
  induction count generalizing cs left with
  | zero => rfl
  | succ count ih =>
      rw [answers_succ, List.range_succ_eq_map, List.map_cons, List.map_map]
      cases hword : nextWord? cs with
      | none =>
          rw [next_of_none hword, ih, words_eq_nil hword]
          rfl
      | some found =>
          obtain ⟨word, rest⟩ := found
          rw [words_eq_cons hword, List.map_cons]
          simp only [Function.comp_def, Nat.succ_eq_add_one, answerAt_cons_succ]
          cases left with
          | zero =>
              rw [next_zero hword, ih]
              rfl
          | succ left =>
              rw [next_succ hword, ih]
              rfl

/-- A source has a stream unless it is too large. -/
theorem ofSource_of_le {limits : Limits} {source : String}
    (hsize : source.utf8ByteSize ≤ limits.inputSize) :
    ofSource limits source = .ok ⟨source.toList, limits.tokenCount, limits.tokenCount⟩ :=
  if_neg (Nat.not_lt_of_le hsize)

theorem ofSource_of_lt {limits : Limits} {source : String}
    (hsize : limits.inputSize < source.utf8ByteSize) :
    ofSource limits source = .error (.inputTooLarge source.utf8ByteSize limits.inputSize) :=
  if_pos hsize

theorem ofSource_eq_error_iff {limits : Limits} {source : String} :
    (∃ error, ofSource limits source = .error error) ↔
      limits.inputSize < source.utf8ByteSize := by
  constructor
  · rintro ⟨error, herror⟩
    by_contra hsize
    rw [ofSource_of_le (Nat.le_of_not_lt hsize)] at herror
    contradiction
  · exact fun hsize => ⟨_, ofSource_of_lt hsize⟩

end TokenStream

/-- Tokens that are taken one at a time, tokens that are taken all at once under limits
and tokens without any limit agree. -/
theorem lex_stepwise (limits : Limits) (source : String) :
    ((∃ error, TokenStream.ofSource limits source = .error error) ↔
      limits.inputSize < source.utf8ByteSize) ∧
    (∀ stream, TokenStream.ofSource limits source = .ok stream →
      ∀ count, (stream.answers count).length = count ∧ ∀ call < count,
        (∀ token, (tokenize source)[call]? = some token → call < limits.tokenCount →
          (stream.answers count)[call]? = some (.ok (some token))) ∧
        (limits.tokenCount ≤ call → call < (tokenize source).length →
          (stream.answers count)[call]? = some (.error (.tooManyTokens limits.tokenCount))) ∧
        ((tokenize source).length ≤ call → (stream.answers count)[call]? = some (.ok none))) ∧
    (∀ tokens, lex limits source = .ok tokens ↔
      source.utf8ByteSize ≤ limits.inputSize ∧
        (tokenize source).length ≤ limits.tokenCount ∧ tokenize source = tokens) ∧
    (limits.inputSize < source.utf8ByteSize →
      lex limits source = .error (.inputTooLarge source.utf8ByteSize limits.inputSize)) ∧
    (source.utf8ByteSize ≤ limits.inputSize → limits.tokenCount < (tokenize source).length →
      lex limits source = .error (.tooManyTokens limits.tokenCount)) := by
  refine ⟨TokenStream.ofSource_eq_error_iff, ?_, fun tokens => lex_eq_ok_iff, ?_, ?_⟩
  · intro stream hstream count
    have hsize : source.utf8ByteSize ≤ limits.inputSize := by
      by_contra hsize
      rw [TokenStream.ofSource_of_lt (Nat.lt_of_not_le hsize)] at hstream
      contradiction
    rw [TokenStream.ofSource_of_le hsize] at hstream
    obtain rfl := Except.ok.inj hstream
    rw [TokenStream.answers_eq count, ← tokenize]
    refine ⟨by rw [List.length_map, List.length_range], fun call hcall => ?_⟩
    rw [List.getElem?_map, List.getElem?_range hcall, Option.map_some]
    refine ⟨fun token htoken hleft => ?_, fun hleft hlength => ?_, fun hlength => ?_⟩
    · rw [TokenStream.answerAt_of_lt htoken hleft]
    · rw [TokenStream.answerAt_of_le hlength hleft]
    · rw [TokenStream.answerAt_of_length_le hlength]
  · intro hsize
    rw [lex_eq, if_pos hsize]
  · intro hsize hcount
    rw [lex_eq, if_neg (Nat.not_lt_of_le hsize), if_pos hcount]

/-- The third of three words is refused when two may be taken, and nothing comes after
it. -/
theorem lex_stepwise_three_words :
    ∃ stream, TokenStream.ofSource ⟨9, 2, 4⟩ "a 1 ;" = .ok stream ∧
      (stream.answers 5)[1]? = some (.ok (some ⟨.numeral, "1"⟩)) ∧
      (stream.answers 5)[2]? = some (.error (.tooManyTokens 2)) ∧
      (stream.answers 5)[4]? = some (.ok none) ∧
      lex ⟨9, 2, 4⟩ "a 1 ;" = .error (.tooManyTokens 2) := by
  have hlength : (tokenize "a 1 ;").length = 3 := by decide +kernel
  have hstream := @TokenStream.ofSource_of_le ⟨9, 2, 4⟩ "a 1 ;" (by decide)
  obtain ⟨-, hanswers, -, -, hlex⟩ := lex_stepwise ⟨9, 2, 4⟩ "a 1 ;"
  obtain ⟨-, hcalls⟩ := hanswers _ hstream 5
  refine ⟨_, hstream, ?_, ?_, ?_, ?_⟩
  · exact (hcalls 1 (by decide)).1 _ (by decide +kernel) (by decide)
  · exact (hcalls 2 (by decide)).2.1 (by decide) (by rw [hlength]; decide)
  · exact (hcalls 4 (by decide)).2.2 (by rw [hlength]; decide)
  · exact hlex (by decide) (by rw [hlength]; decide)

end Dataflow
