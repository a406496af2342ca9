import Dataflow.Token.Word
import Mathlib.Data.List.TakeWhile

/-!
# The words of a text

A word is a text without a separator that is not empty.  A text that begins with
a word and then ends or goes on with a separator has this word first, and every
word that is found in a text is one.  So a text in which words stand apart from
each other is cut into exactly these words.
-/

namespace Dataflow

/-- Not empty and without a separator. -/
structure IsWord (cs : List Char) : Prop where
  ne_nil : cs ≠ []
  unseparated : ∀ c ∈ cs, isSeparator c = false

/-- The text ends here or goes on with a separator. -/
def StandsApart (cs : List Char) : Prop :=
  ∀ c ∈ cs.head?, isSeparator c = true

theorem standsApart_nil : StandsApart [] := nofun

theorem standsApart_cons {c : Char} (hc : isSeparator c = true) (cs : List Char) :
    StandsApart (c :: cs) := by
  intro d hd
  rwa [← Option.some.inj hd]

theorem nextWord?_cons {c : Char} (hc : isSeparator c = true) (cs : List Char) :
    nextWord? (c :: cs) = nextWord? cs := by
  rw [nextWord?, nextWord?, List.dropWhile_cons_of_pos hc]

theorem nextWord?_append {word rest : List Char} (hword : IsWord word)
    (hrest : StandsApart rest) : nextWord? (word ++ rest) = some (word, rest) := by
  obtain ⟨hne, hunseparated⟩ := hword
  cases word with
  | nil => contradiction
  | cons c word =>
      obtain ⟨hc, hword⟩ := List.forall_mem_cons.mp hunseparated
      have hpass : ∀ d ∈ word, (!isSeparator d) = true := by
        intro d hd
        rw [hword d hd]
        rfl
      have htake : rest.takeWhile (fun d => !isSeparator d) = [] ∧
          rest.dropWhile (fun d => !isSeparator d) = rest := by
        cases rest with
        | nil => exact ⟨rfl, rfl⟩
        | cons d rest => simp [hrest d rfl]
      rw [nextWord?, List.cons_append,
        List.dropWhile_cons_of_neg (by rw [hc]; exact Bool.false_ne_true)]
      simp only
      rw [List.takeWhile_append_of_pos hpass, List.dropWhile_append_of_pos hpass, htake.1,
        htake.2, List.append_nil]

/-- What is found first is a word, and it stands apart from what follows. -/
theorem isWord_of_nextWord? {cs word rest : List Char}
    (hnext : nextWord? cs = some (word, rest)) : IsWord word ∧ StandsApart rest := by
  unfold nextWord? at hnext
  split at hnext
  · contradiction
  · next c tail hdrop =>
    obtain ⟨rfl, rfl⟩ := Prod.mk.inj (Option.some.inj hnext)
    refine ⟨⟨List.cons_ne_nil _ _, List.forall_mem_cons.mpr ⟨?_, ?_⟩⟩, ?_⟩
    · have hhead := List.head?_dropWhile_not isSeparator cs
      rwa [hdrop] at hhead
    · intro d hd
      simpa using List.mem_takeWhile_imp hd
    · intro d hd
      have hhead := List.head?_dropWhile_not (fun d => !isSeparator d) tail
      rw [hd] at hhead
      simpa using hhead

/-- The words already found only stand before the others. -/
theorem wordsOnto_eq (found : List (List Char)) (cs : List Char) :
    wordsOnto found cs = found.reverse ++ words cs := by
  rw [words, wordsOnto.eq_def, wordsOnto.eq_def []]
  split
  · exact (List.append_nil _).symm
  · next word rest hnext =>
    have hlt := length_lt_of_nextWord? hnext
    rw [wordsOnto_eq (word :: found) rest, wordsOnto_eq [word] rest, List.reverse_cons,
      List.append_assoc]
    rfl
termination_by cs.length

theorem words_eq_nil {cs : List Char} (hnext : nextWord? cs = none) : words cs = [] := by
  rw [words, wordsOnto]
  split <;> simp_all

theorem words_eq_cons {cs word rest : List Char}
    (hnext : nextWord? cs = some (word, rest)) : words cs = word :: words rest := by
  rw [words, wordsOnto]
  split
  · simp_all
  · next first tail hfirst =>
    obtain ⟨rfl, rfl⟩ := Prod.mk.inj (Option.some.inj (hfirst.symm.trans hnext))
    exact wordsOnto_eq [first] tail

theorem words_nil : words [] = [] := words_eq_nil rfl

theorem words_cons {c : Char} (hc : isSeparator c = true) (cs : List Char) :
    words (c :: cs) = words cs := by
  have hskip := nextWord?_cons hc cs
  cases hnext : nextWord? cs with
  | none => rw [words_eq_nil hnext, words_eq_nil (hskip.trans hnext)]
  | some found => rw [words_eq_cons hnext, words_eq_cons (hskip.trans hnext)]

theorem words_append {word rest : List Char} (hword : IsWord word)
    (hrest : StandsApart rest) : words (word ++ rest) = word :: words rest :=
  words_eq_cons (nextWord?_append hword hrest)

/-- Only words are found. -/
theorem isWord_of_mem_words {cs word : List Char} (hmem : word ∈ words cs) :
    IsWord word := by
  cases hnext : nextWord? cs with
  | none =>
      rw [words_eq_nil hnext] at hmem
      contradiction
  | some found =>
      have hlt := length_lt_of_nextWord? hnext
      rw [words_eq_cons hnext] at hmem
      rcases List.mem_cons.mp hmem with rfl | hmem
      · exact (isWord_of_nextWord? hnext).1
      · exact isWord_of_mem_words hmem
termination_by cs.length

/-- Words with a blank between any two are found again. -/
theorem words_intercalate {found : List (List Char)} (hfound : ∀ word ∈ found, IsWord word) :
    words ([' '].intercalate found) = found := by
  have hblank : isSeparator ' ' = true := rfl
  induction found with
  | nil => exact words_nil
  | cons word found ih =>
      obtain ⟨hword, hfound⟩ := List.forall_mem_cons.mp hfound
      have hrest := ih hfound
      cases found with
      | nil =>
          have happend := words_append hword standsApart_nil
          rw [List.append_nil, words_nil] at happend
          rw [List.intercalate_singleton, happend]
      | cons next found =>
          rw [List.intercalate_cons_cons, List.append_assoc, List.singleton_append,
            words_append hword (standsApart_cons hblank _), words_cons hblank, hrest]

end Dataflow
