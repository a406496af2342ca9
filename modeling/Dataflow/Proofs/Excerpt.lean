import Dataflow.Program.DecidableEq
import Dataflow.Proofs.Acceptance
import Dataflow.Proofs.Independence

/-!
# The context of an error

The context of an error is the text of the statement it lies in, cut out of the
source and with single blanks between its tokens.  Closed with a semicolon, this
excerpt is a source of its own, and parsing it under the same limits gives the same
error: its tokens are lexed again, it is no larger than the source that it is cut
out of, and its statement is refused as before.
-/

namespace Dataflow

/-! ## The bytes of words -/

def byteSize (cs : List Char) : Nat :=
  (String.ofList cs).utf8ByteSize

@[simp]
theorem byteSize_nil : byteSize [] = 0 := rfl

@[simp]
theorem byteSize_cons (c : Char) (cs : List Char) :
    byteSize (c :: cs) = c.utf8Size + byteSize cs := by
  rw [byteSize, String.ofList_cons, String.utf8ByteSize_append, String.utf8ByteSize_singleton,
    byteSize]

theorem byteSize_append (front rest : List Char) :
    byteSize (front ++ rest) = byteSize front + byteSize rest := by
  rw [byteSize, String.ofList_append, String.utf8ByteSize_append, byteSize, byteSize]

theorem byteSize_toList (text : String) : byteSize text.toList = text.utf8ByteSize := by
  rw [byteSize, String.ofList_toList]

/-- The bytes that words take when a blank follows each of them. -/
def spacedSize : List (List Char) → Nat
  | [] => 0
  | word :: found => byteSize word + 1 + spacedSize found

@[simp]
theorem spacedSize_nil : spacedSize [] = 0 := rfl

@[simp]
theorem spacedSize_cons (word : List Char) (found : List (List Char)) :
    spacedSize (word :: found) = byteSize word + 1 + spacedSize found := rfl

theorem spacedSize_append (front rest : List (List Char)) :
    spacedSize (front ++ rest) = spacedSize front + spacedSize rest := by
  induction front with
  | nil => exact (Nat.zero_add _).symm
  | cons word front ih =>
      rw [List.cons_append, spacedSize_cons, spacedSize_cons, ih]
      omega

/-- A word and what follows it take no more bytes than the text they are found in. -/
theorem byteSize_le_of_nextWord? {cs word rest : List Char}
    (hnext : nextWord? cs = some (word, rest)) : byteSize word + byteSize rest ≤ byteSize cs := by
  unfold nextWord? at hnext
  split at hnext
  · contradiction
  · next c tail hdrop =>
    obtain ⟨rfl, rfl⟩ := Prod.mk.inj (Option.some.inj hnext)
    have hblanks := congrArg byteSize (List.takeWhile_append_dropWhile (p := isSeparator) (l := cs))
    have htail := congrArg byteSize
      (List.takeWhile_append_dropWhile (p := fun d => !isSeparator d) (l := tail))
    rw [byteSize_append] at hblanks htail
    rw [hdrop] at hblanks
    simp only [byteSize_cons] at hblanks ⊢
    omega

/-- Every word but the last has a separator after it. -/
theorem spacedSize_words_le (cs : List Char) : spacedSize (words cs) ≤ byteSize cs + 1 := by
  cases hnext : nextWord? cs with
  | none =>
      rw [words_eq_nil hnext]
      exact Nat.zero_le _
  | some found =>
      obtain ⟨word, rest⟩ := found
      have hlt := length_lt_of_nextWord? hnext
      have hbytes := byteSize_le_of_nextWord? hnext
      have hapart := (isWord_of_nextWord? hnext).2
      rw [words_eq_cons hnext, spacedSize_cons]
      cases rest with
      | nil =>
          rw [words_nil, spacedSize_nil]
          simp only [byteSize_nil] at hbytes
          omega
      | cons separator rest =>
          have hrest := spacedSize_words_le rest
          have hpos := separator.utf8Size_pos
          rw [words_cons (hapart separator rfl)]
          rw [byteSize_cons] at hbytes
          omega
termination_by cs.length
decreasing_by
  simp only [List.length_cons] at *
  omega

/-! ## Parts of a source -/

/-- A blank stands after every text but the last. -/
theorem utf8ByteSize_joinTexts (tokens : List Token) :
    (Token.joinTexts tokens).utf8ByteSize =
      spacedSize (tokens.map fun token => token.text.toList) - 1 := by
  induction tokens with
  | nil => rfl
  | cons token tokens ih =>
      cases tokens with
      | nil =>
          rw [Token.joinTexts, List.map_singleton, String.intercalate_singleton, List.map_singleton,
            spacedSize_cons, byteSize_toList]
          rfl
      | cons next tokens =>
          have hblank : (" " : String).utf8ByteSize = 1 := rfl
          rw [Token.joinTexts] at ih ⊢
          simp only [List.map_cons, spacedSize_cons, byteSize_toList] at ih ⊢
          rw [String.intercalate_cons_cons, String.utf8ByteSize_append,
            String.utf8ByteSize_append, ih, hblank]
          omega

/-- Tokens that stand together in a source take no more bytes with single blanks
between them than the source has. -/
theorem utf8ByteSize_joinTexts_le {source : String} {part : List Token}
    (hpart : part <:+: tokenize source) :
    (Token.joinTexts part).utf8ByteSize ≤ source.utf8ByteSize := by
  obtain ⟨front, rest, htokens⟩ := hpart
  have hwords := spacedSize_words_le source.toList
  rw [← texts_tokenize, ← htokens, byteSize_toList, List.map_append, List.map_append,
    spacedSize_append, spacedSize_append] at hwords
  rw [utf8ByteSize_joinTexts]
  omega

namespace Program

/-- Tokens that stand together in a source are a source that keeps to the same
limits. -/
theorem parse_joinTexts {limits : Limits} {source : String} {part : List Token}
    (hsize : source.utf8ByteSize ≤ limits.inputSize)
    (hcount : (tokenize source).length ≤ limits.tokenCount)
    (hpart : part <:+: tokenize source) :
    parse limits (Token.joinTexts part) = ofTokens limits.nestingDepth part := by
  have hlexical : AllLexical part :=
    fun token hmem => allLexical_tokenize source token (hpart.subset hmem)
  have htokens := tokenize_joinTexts hlexical
  rw [parse_of_fits ((utf8ByteSize_joinTexts_le hpart).trans hsize)
    (by rw [htokens]; exact hpart.length_le.trans hcount), htokens]

end Program

/-! ## Excerpts -/

/-- The context of an error as a source of its own: closed with a semicolon, unless
the error is that there is none. -/
def SyntaxError.excerpt (error : SyntaxError) (context : String) : String :=
  match error with
  | .unterminated _ => context
  | _ => if context = "" then ";" else context ++ " ;"

theorem joinTexts_eq_empty_iff {tokens : List Token} (hlexical : AllLexical tokens) :
    Token.joinTexts tokens = "" ↔ tokens = [] := by
  constructor
  · intro hempty
    rw [← tokenize_joinTexts hlexical, hempty, tokenize, String.toList_empty, words_nil,
      List.map_nil]
  · rintro rfl
    rfl

theorem joinTexts_semicolon {run : List Token} (hlexical : AllLexical run) :
    Token.joinTexts (run ++ [.mark .semicolon]) =
      if Token.joinTexts run = "" then ";" else Token.joinTexts run ++ " ;" := by
  have hblank : (" ;" : String) = " " ++ ";" := rfl
  by_cases hrun : run = []
  · rw [if_pos ((joinTexts_eq_empty_iff hlexical).mpr hrun), hrun]
    rfl
  · rw [if_neg (mt (joinTexts_eq_empty_iff hlexical).mp hrun), hblank, ← String.append_assoc,
      Token.joinTexts, List.map_append, List.map_singleton,
      String.intercalate_append_of_ne_nil (mt List.map_eq_nil_iff.mp hrun) (List.cons_ne_nil _ _)]
    rfl

namespace Program

/-- The context of an error, closed with a semicolon, is a source with this very
error, whatever the limits are. -/
theorem parse_excerpt {limits : Limits} {source context : String} {error : SyntaxError}
    (herror : parse limits source = .error error) (hcontext : error.context? = some context) :
    parse limits (error.excerpt context) = .error error := by
  rcases parse_error_cases herror with rfl | rfl | ⟨hsize, hcount, htokens⟩
  · contradiction
  · contradiction
  · rcases ofTokens_error_cases htokens with ⟨hne, rfl⟩ | ⟨run, fault, hmem, rfl, hread⟩
    · obtain rfl := Option.some.inj hcontext
      have hparse := parse_joinTexts hsize hcount (infix_remainder (tokenize source))
      rw [SyntaxError.excerpt, hparse, ofTokens_tail _ (isRun_remainder _), if_neg hne]
    · obtain rfl := Option.some.inj hcontext
      have hcut := infix_of_mem_runs hmem
      have hlexical : AllLexical run := fun token htoken =>
        allLexical_tokenize source token (hcut.subset (List.mem_append_left _ htoken))
      have hexcerpt : (SyntaxError.statement run fault).excerpt (Token.joinTexts run) =
          Token.joinTexts (run ++ [.mark .semicolon]) := (joinTexts_semicolon hlexical).symm
      rw [hexcerpt, parse_joinTexts hsize hcount hcut,
        ofTokens_single _ (isRun_of_mem_runs hmem), hread]

/-- A dangling arrow in the second of three statements, which are laid out over
several lines. -/
theorem parse_excerpt_dangling_arrow :
    parse {} "y = a ;\n  x =\t-> ;\nz" =
        .error (.statement [.identifier "x", .mark .equals, .mark .arrow]
          (.danglingArrow (.mark .arrow))) ∧
      parse {} "x = -> ;" =
        .error (.statement [.identifier "x", .mark .equals, .mark .arrow]
          (.danglingArrow (.mark .arrow))) := by
  have herror : parse {} "y = a ;\n  x =\t-> ;\nz" =
      .error (.statement [.identifier "x", .mark .equals, .mark .arrow]
        (.danglingArrow (.mark .arrow))) := by
    decide +kernel
  have hexcerpt := parse_excerpt herror rfl
  exact ⟨herror, hexcerpt⟩

end Program

end Dataflow
