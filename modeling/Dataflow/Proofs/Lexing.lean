import Dataflow.Proofs.Mark
import Dataflow.Proofs.Words
import Dataflow.Token.Stream

/-!
# Tokens as they are lexed

A token that comes from a source is one word and has the kind of that word.  A
list of such tokens is what the text is cut into that is made of their own texts
with a blank between any two, so it can be written down and lexed again.  The
limits on the size of the source and on the number of tokens only decide whether
a source is lexed, not what its tokens are.
-/

namespace Dataflow

namespace Token

/-- The text is one word and of the kind that the token has. -/
structure Lexical (token : Token) : Prop where
  isWord : IsWord token.text.toList
  kind_eq : kindOfText token.text = token.kind

theorem Lexical.ofWord_eq {token : Token} (hlexical : token.Lexical) :
    ofWord token.text.toList = token := by
  rw [ofWord, String.ofList_toList, ofText, hlexical.kind_eq]

theorem lexical_ofWord {word : List Char} (hword : IsWord word) : (ofWord word).Lexical := by
  refine ⟨?_, rfl⟩
  rwa [ofWord, ofText, String.toList_ofList]

@[simp]
theorem lexical_mark (m : Mark) : (mark m).Lexical := by
  cases m <;> exact ⟨⟨by simp [mark], by simp [mark, isSeparator]⟩, by decide⟩

end Token

/-- All of the tokens are words of their kind. -/
def AllLexical (tokens : List Token) : Prop :=
  ∀ token ∈ tokens, token.Lexical

@[simp]
theorem allLexical_nil : AllLexical [] := nofun

@[simp]
theorem allLexical_cons {token : Token} {tokens : List Token} :
    AllLexical (token :: tokens) ↔ token.Lexical ∧ AllLexical tokens :=
  List.forall_mem_cons

@[simp]
theorem allLexical_append {front rest : List Token} :
    AllLexical (front ++ rest) ↔ AllLexical front ∧ AllLexical rest :=
  List.forall_mem_append

theorem allLexical_tokenize (source : String) : AllLexical (tokenize source) := by
  intro token hmem
  obtain ⟨word, hword, rfl⟩ := List.mem_map.mp hmem
  exact Token.lexical_ofWord (isWord_of_mem_words hword)

/-- The texts of the tokens are the words of the source. -/
theorem texts_tokenize (source : String) :
    (tokenize source).map (fun token => token.text.toList) = words source.toList := by
  rw [tokenize, List.map_map]
  calc
    (words source.toList).map ((fun token => token.text.toList) ∘ Token.ofWord) =
        (words source.toList).map id :=
      List.map_congr_left fun word _ => String.toList_ofList
    _ = words source.toList := List.map_id _

/-- Lexical tokens are lexed again from their own texts. -/
theorem tokenize_joinTexts {tokens : List Token} (hlexical : AllLexical tokens) :
    tokenize (Token.joinTexts tokens) = tokens := by
  have hwords : ∀ word ∈ (tokens.map Token.text).map String.toList, IsWord word := by
    intro word hword
    rw [List.map_map] at hword
    obtain ⟨token, htoken, rfl⟩ := List.mem_map.mp hword
    exact (hlexical token htoken).isWord
  calc
    tokenize (Token.joinTexts tokens) =
        ((tokens.map Token.text).map String.toList).map Token.ofWord := by
      rw [tokenize, Token.joinTexts, String.toList_intercalate]
      exact congrArg _ (words_intercalate hwords)
    _ = tokens.map id := by
      rw [List.map_map, List.map_map]
      apply List.map_congr_left
      intro token htoken
      exact (hlexical token htoken).ofWord_eq
    _ = tokens := List.map_id tokens

namespace TokenStream

theorem drainOnto_of_error {stream after : TokenStream} {error : SyntaxError}
    (hnext : stream.next = (.error error, after)) (taken : List Token) :
    stream.drainOnto taken = .error error := by
  rw [drainOnto.eq_def]
  split <;> simp_all

theorem drainOnto_of_none {stream after : TokenStream}
    (hnext : stream.next = (.ok none, after)) (taken : List Token) :
    stream.drainOnto taken = .ok taken.reverse := by
  rw [drainOnto.eq_def]
  split <;> simp_all

theorem drainOnto_of_some {stream after : TokenStream} {token : Token}
    (hnext : stream.next = (.ok (some token), after)) (taken : List Token) :
    stream.drainOnto taken = after.drainOnto (token :: taken) := by
  rw [drainOnto.eq_def]
  split <;> simp_all

/-- A text without words stays as it is. -/
theorem next_of_none {cs : List Char} (hword : nextWord? cs = none) (left limit : Nat) :
    next ⟨cs, left, limit⟩ = (.ok none, ⟨cs, left, limit⟩) := by
  simp [next, hword]

/-- A word that is refused is used up. -/
theorem next_zero {cs word rest : List Char} (hword : nextWord? cs = some (word, rest))
    (limit : Nat) : next ⟨cs, 0, limit⟩ = (.error (.tooManyTokens limit), ⟨rest, 0, limit⟩) := by
  simp [next, hword]

theorem next_succ {cs word rest : List Char} (hword : nextWord? cs = some (word, rest))
    (left limit : Nat) :
    next ⟨cs, left + 1, limit⟩ = (.ok (some (Token.ofWord word)), ⟨rest, left, limit⟩) := by
  simp [next, hword]

/-- A stream is emptied unless its text has more words than may still be handed
out. -/
theorem drainOnto_eq (cs : List Char) (left limit : Nat) (taken : List Token) :
    drainOnto taken ⟨cs, left, limit⟩ =
      if left < (words cs).length then .error (.tooManyTokens limit)
      else .ok (taken.reverse ++ (words cs).map Token.ofWord) := by
  cases hword : nextWord? cs with
  | none =>
      rw [drainOnto_of_none (next_of_none hword left limit), words_eq_nil hword]
      simp
  | some found =>
      obtain ⟨word, rest⟩ := found
      have hlt := length_lt_of_nextWord? hword
      rw [words_eq_cons hword]
      cases left with
      | zero =>
          rw [drainOnto_of_error (next_zero hword limit)]
          simp
      | succ left =>
          rw [drainOnto_of_some (next_succ hword left limit), drainOnto_eq rest left]
          simp
termination_by cs.length

end TokenStream

theorem lex_eq (limits : Limits) (source : String) :
    lex limits source =
      if limits.inputSize < source.utf8ByteSize then
        .error (.inputTooLarge source.utf8ByteSize limits.inputSize)
      else if limits.tokenCount < (tokenize source).length then
        .error (.tooManyTokens limits.tokenCount)
      else .ok (tokenize source) := by
  rw [lex, TokenStream.ofSource]
  by_cases hsize : limits.inputSize < source.utf8ByteSize
  · rw [if_pos hsize, if_pos hsize]
  · rw [if_neg hsize, if_neg hsize, tokenize, List.length_map]
    exact TokenStream.drainOnto_eq _ _ _ []

theorem lex_eq_ok_iff {limits : Limits} {source : String} {tokens : List Token} :
    lex limits source = .ok tokens ↔
      source.utf8ByteSize ≤ limits.inputSize ∧
        (tokenize source).length ≤ limits.tokenCount ∧ tokenize source = tokens := by
  rw [lex_eq]
  by_cases hsize : limits.inputSize < source.utf8ByteSize
  · rw [if_pos hsize]
    exact iff_of_false nofun fun h => Nat.not_le_of_gt hsize h.1
  · by_cases hcount : limits.tokenCount < (tokenize source).length
    · rw [if_neg hsize, if_pos hcount]
      exact iff_of_false nofun fun h => Nat.not_le_of_gt hcount h.2.1
    · rw [if_neg hsize, if_neg hcount, Except.ok.injEq]
      exact (and_iff_right (Nat.le_of_not_gt hsize)).trans
        (and_iff_right (Nat.le_of_not_gt hcount)) |>.symm

end Dataflow
