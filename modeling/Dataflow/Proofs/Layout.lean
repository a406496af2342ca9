import Dataflow.Proofs.Lexing

/-!
# The layout of words

The words of a text are its maximal runs of characters that do not separate, in
the order in which they stand there.  What stands between two words does not
matter, as long as something does: a text that is cut at separators has the words
of both parts, and words that are laid out with separators between them are found
again.
-/

namespace Dataflow

/-- Blank, tab, line feed, vertical tab, form feed and carriage return separate, and
no other character does. -/
theorem isSeparator_iff {c : Char} :
    isSeparator c = true ↔ c ∈ [' ', '\t', '\n', '\x0b', '\x0c', '\r'] := by
  have hle : ∀ d e : Char, d ≤ e ↔ d.toNat ≤ e.toNat := fun _ _ => UInt32.le_iff_toNat_le
  simp only [isSeparator, Bool.or_eq_true, beq_iff_eq, Bool.and_eq_true, decide_eq_true_eq,
    List.mem_cons, List.not_mem_nil, or_false, hle, ← Char.toNat_inj, Char.reduceToNat]
  omega

/-- A text of separators only. -/
def IsGap (cs : List Char) : Prop :=
  ∀ c ∈ cs, isSeparator c = true

/-- The text before a word is empty or ends with a separator. -/
def EndsApart (cs : List Char) : Prop :=
  ∀ c ∈ cs.getLast?, isSeparator c = true

/-- A word that begins after `start` characters and cannot be made longer. -/
def IsMaximalRun (cs : List Char) (start : Nat) (run : List Char) : Prop :=
  ∃ before after, cs = before ++ (run ++ after) ∧ before.length = start ∧ IsWord run ∧
    EndsApart before ∧ StandsApart after

/-- All maximal runs of a text in the order of their starts. -/
def AreMaximalRuns (cs : List Char) (runs : List (List Char)) : Prop :=
  ∃ spans : List (Nat × List Char), spans.map Prod.snd = runs ∧
    spans.Pairwise (fun left right => left.1 < right.1) ∧
    ∀ start run, (start, run) ∈ spans ↔ IsMaximalRun cs start run

theorem StandsApart.append {front : List Char} (hfront : StandsApart front)
    (hne : front ≠ []) (rest : List Char) : StandsApart (front ++ rest) := by
  cases front with
  | nil => contradiction
  | cons c front => exact standsApart_cons (hfront c rfl) _

theorem IsGap.standsApart {gap : List Char} (hgap : IsGap gap) : StandsApart gap :=
  fun c hc => hgap c (List.mem_of_mem_head? hc)

theorem IsWord.not_standsApart {word : List Char} (hword : IsWord word) (rest : List Char) :
    ¬ StandsApart (word ++ rest) := by
  intro hapart
  cases word with
  | nil => exact hword.ne_nil rfl
  | cons c word =>
      have hc := hword.unseparated c List.mem_cons_self
      rw [hapart c rfl] at hc
      contradiction

theorem IsWord.not_endsApart {word : List Char} (hword : IsWord word) (front : List Char) :
    ¬ EndsApart (front ++ word) := by
  intro hapart
  have hlast := List.getLast?_eq_some_getLast hword.ne_nil
  have hc := hword.unseparated _ (List.getLast_mem hword.ne_nil)
  rw [hapart _ (by rw [List.getLast?_append, hlast]; rfl)] at hc
  contradiction

theorem EndsApart.of_append (front : List Char) {rest : List Char}
    (hapart : EndsApart (front ++ rest)) : EndsApart rest := by
  intro c hc
  apply hapart c
  rw [List.getLast?_append, Option.mem_def.mp hc]
  rfl

theorem endsApart_append (front : List Char) {rest : List Char} (hrest : EndsApart rest)
    (hne : rest ≠ []) : EndsApart (front ++ rest) := by
  intro c hc
  rw [List.getLast?_append, List.getLast?_eq_some_getLast hne] at hc
  exact hrest c (by rwa [List.getLast?_eq_some_getLast hne])

/-- A text is empty, or begins with a separator or with a word that stands apart. -/
@[elab_as_elim]
theorem inductionOnWords {motive : List Char → Prop} (nil : motive [])
    (separator : ∀ c cs, isSeparator c = true → motive cs → motive (c :: cs))
    (word : ∀ word rest, IsWord word → StandsApart rest → motive rest → motive (word ++ rest))
    (cs : List Char) : motive cs := by
  cases cs with
  | nil => exact nil
  | cons c cs =>
      by_cases hc : isSeparator c = true
      · exact separator c cs hc (inductionOnWords nil separator word cs)
      · have hnext : nextWord? (c :: cs) = some (c :: cs.takeWhile (fun d => !isSeparator d),
            cs.dropWhile (fun d => !isSeparator d)) := by
          rw [nextWord?, List.dropWhile_cons_of_neg hc]
        have hlt := length_lt_of_nextWord? hnext
        obtain ⟨hword, hapart⟩ := isWord_of_nextWord? hnext
        have heq : c :: cs = (c :: cs.takeWhile (fun d => !isSeparator d)) ++
            cs.dropWhile (fun d => !isSeparator d) := by
          rw [List.cons_append, List.takeWhile_append_dropWhile]
        rw [heq]
        exact word _ _ hword hapart (inductionOnWords nil separator word _)
termination_by cs.length
decreasing_by
  · exact Nat.lt_succ_self cs.length
  · exact hlt

/-! ## Words are maximal runs -/

theorem isMaximalRun_nil (start : Nat) (run : List Char) : ¬ IsMaximalRun [] start run := by
  rintro ⟨before, after, heq, -, hrun, -, -⟩
  simp [hrun.ne_nil] at heq

/-- A separator in front only moves the runs. -/
theorem isMaximalRun_cons {c : Char} (hc : isSeparator c = true) {cs run : List Char}
    {start : Nat} :
    IsMaximalRun (c :: cs) start run ↔ ∃ place, start = 1 + place ∧ IsMaximalRun cs place run := by
  constructor
  · rintro ⟨before, after, heq, rfl, hrun, hbefore, hafter⟩
    cases before with
    | nil =>
        have hapart := standsApart_cons hc cs
        rw [heq, List.nil_append] at hapart
        exact absurd hapart (hrun.not_standsApart after)
    | cons d before =>
        obtain ⟨rfl, rfl⟩ := List.cons.inj heq
        have hrest : EndsApart before := hbefore.of_append [c]
        exact ⟨before.length, Nat.add_comm _ 1, before, after, rfl, rfl, hrun, hrest, hafter⟩
  · rintro ⟨place, rfl, before, after, rfl, rfl, hrun, hbefore, hafter⟩
    refine ⟨c :: before, after, rfl, Nat.add_comm _ 1, hrun, ?_, hafter⟩
    cases before with
    | nil => simpa [EndsApart] using hc
    | cons d before => exact endsApart_append [c] hbefore (List.cons_ne_nil d before)

/-- A word in front is a run, and moves the others. -/
theorem isMaximalRun_append {word rest : List Char} (hword : IsWord word)
    (hrest : StandsApart rest) {run : List Char} {start : Nat} :
    IsMaximalRun (word ++ rest) start run ↔
      (start = 0 ∧ run = word) ∨
        ∃ place, start = word.length + place ∧ IsMaximalRun rest place run := by
  constructor
  · rintro ⟨before, after, heq, rfl, hrun, hbefore, hafter⟩
    rcases List.append_eq_append_iff.mp heq with ⟨middle, rfl, rfl⟩ | ⟨middle, rfl, hmiddle⟩
    · right
      have hmiddle := hbefore.of_append word
      refine ⟨middle.length, List.length_append, middle, after, rfl, rfl, hrun, hmiddle, hafter⟩
    · left
      have hnil : before = [] := by
        by_contra hne
        have hpart : IsWord before :=
          ⟨hne, fun c hc => hword.unseparated c (List.mem_append_left _ hc)⟩
        exact hpart.not_endsApart [] hbefore
      subst hnil
      have hsame := nextWord?_append hrun hafter
      rw [← List.nil_append (run ++ after), ← heq, nextWord?_append hword hrest] at hsame
      exact ⟨rfl, (Prod.mk.inj (Option.some.inj hsame)).1.symm⟩
  · rintro (⟨rfl, rfl⟩ | ⟨place, rfl, before, after, rfl, rfl, hrun, hbefore, hafter⟩)
    · exact ⟨[], rest, rfl, rfl, hword, nofun, hrest⟩
    · have hne : before ≠ [] := by
        rintro rfl
        exact hrun.not_standsApart after hrest
      refine ⟨word ++ before, after, (List.append_assoc word before _).symm, List.length_append,
        hrun, endsApart_append word hbefore hne, hafter⟩

/-- Runs that are moved are still in order, and they come after a run before all of
them. -/
theorem areMaximalRuns_words (cs : List Char) : AreMaximalRuns cs (words cs) := by
  induction cs using inductionOnWords with
  | nil => exact ⟨[], words_nil.symm, .nil, fun start run => by simp [isMaximalRun_nil]⟩
  | separator c cs hc ih =>
      obtain ⟨spans, hspans, horder, hmem⟩ := ih
      refine ⟨spans.map (Prod.map (1 + ·) id), ?_, ?_, ?_⟩
      · rw [words_cons hc, List.map_map, ← hspans]
        rfl
      · rw [List.pairwise_map]
        exact horder.imp fun hlt => Nat.add_lt_add_left hlt 1
      · intro start run
        rw [isMaximalRun_cons hc]
        simp only [List.mem_map, Prod.exists, Prod.map_apply, id_eq, Prod.mk.injEq, hmem]
        grind
  | word word rest hword hrest ih =>
      obtain ⟨spans, hspans, horder, hmem⟩ := ih
      refine ⟨(0, word) :: spans.map (Prod.map (word.length + ·) id), ?_, ?_, ?_⟩
      · rw [words_append hword hrest, List.map_cons, List.map_map, ← hspans]
        rfl
      · have hpos := List.length_pos_iff.mpr hword.ne_nil
        rw [List.pairwise_cons, List.pairwise_map]
        refine ⟨?_, horder.imp fun hlt => Nat.add_lt_add_left hlt _⟩
        simp only [List.mem_map]
        rintro _ ⟨span, -, rfl⟩
        exact Nat.add_pos_left hpos span.1
      · intro start run
        rw [isMaximalRun_append hword hrest]
        simp only [List.mem_cons, List.mem_map, Prod.exists, Prod.map_apply, id_eq, Prod.mk.injEq,
          hmem]
        grind

/-- Nothing but the separators is lost. -/
theorem flatten_words (cs : List Char) :
    (words cs).flatten = cs.filter (fun c => !isSeparator c) := by
  induction cs using inductionOnWords with
  | nil => rw [words_nil, List.flatten_nil, List.filter_nil]
  | separator c cs hc ih => rw [words_cons hc, ih, List.filter_cons_of_neg (by rw [hc]; nofun)]
  | word word rest hword hrest ih =>
      have hkept : word.filter (fun c => !isSeparator c) = word := by
        rw [List.filter_eq_self]
        intro c hc
        rw [hword.unseparated c hc]
        rfl
      rw [words_append hword hrest, List.flatten_cons, List.filter_append, hkept, ih]

/-! ## Words that are laid out -/

theorem words_gap_append {gap : List Char} (hgap : IsGap gap) (rest : List Char) :
    words (gap ++ rest) = words rest := by
  induction gap with
  | nil => rfl
  | cons c gap ih =>
      obtain ⟨hc, hgap⟩ := List.forall_mem_cons.mp hgap
      rw [List.cons_append, words_cons hc, ih hgap]

theorem words_gap {gap : List Char} (hgap : IsGap gap) : words gap = [] := by
  rw [← List.append_nil gap, words_gap_append hgap, words_nil]

/-- A text that is cut at separators has the words of both parts. -/
theorem words_append_gap_append (front : List Char) {gap : List Char} (hgap : IsGap gap)
    (hne : gap ≠ []) (rest : List Char) :
    words (front ++ (gap ++ rest)) = words front ++ words rest := by
  induction front using inductionOnWords with
  | nil => rw [List.nil_append, words_gap_append hgap, words_nil, List.nil_append]
  | separator c front hc ih => rw [List.cons_append, words_cons hc, words_cons hc, ih]
  | word word others hword hothers ih =>
      have happend : StandsApart (others ++ (gap ++ rest)) := by
        cases others with
        | nil => exact hgap.standsApart.append hne rest
        | cons c others => exact hothers.append (List.cons_ne_nil c others) _
      rw [List.append_assoc, words_append hword happend, words_append hword hothers, ih,
        List.cons_append]

/-- Words and the gap after each of them, which only the last word can do without. -/
theorem words_layout {laid : List (String × String)}
    (hlaid : ∀ item ∈ laid, IsWord item.1.toList ∧ IsGap item.2.toList)
    (hinner : ∀ item ∈ laid.dropLast, item.2 ≠ "") :
    words (laid.flatMap fun item => item.1.toList ++ item.2.toList) =
      laid.map fun item => item.1.toList := by
  induction laid with
  | nil => exact words_nil
  | cons item laid ih =>
      obtain ⟨⟨hword, hgap⟩, hlaid⟩ := List.forall_mem_cons.mp hlaid
      rw [List.flatMap_cons, List.map_cons, List.append_assoc]
      cases laid with
      | nil =>
          rw [List.flatMap_nil, List.append_nil, words_append hword hgap.standsApart,
            words_gap hgap, List.map_nil]
      | cons next laid =>
          rw [List.dropLast_cons_cons] at hinner
          obtain ⟨hne, hinner⟩ := List.forall_mem_cons.mp hinner
          have hne := mt String.toList_eq_nil_iff.mp hne
          rw [words_append hword (hgap.standsApart.append hne _), words_gap_append hgap,
            ih hlaid hinner]

/-! ## Sources -/

/-- The tokens of a source are its maximal runs in order, each with the kind of its
text.  Sources with separators between them have the tokens of both, and words that
are laid out with separators between them are the tokens that they are laid out
for. -/
theorem tokenize_layout :
    (∀ c : Char, isSeparator c = true ↔ c ∈ [' ', '\t', '\n', '\x0b', '\x0c', '\r']) ∧
    (∀ source : String,
      AreMaximalRuns source.toList ((tokenize source).map fun token => token.text.toList) ∧
      (∀ token ∈ tokenize source, token.text ≠ "" ∧
        (∀ c ∈ token.text.toList, isSeparator c = false) ∧
        token.kind = Token.kindOfText token.text) ∧
      String.join ((tokenize source).map Token.text) =
        String.ofList (source.toList.filter fun c => !isSeparator c)) ∧
    (∀ front gap rest : String, gap ≠ "" → IsGap gap.toList →
      tokenize (front ++ gap ++ rest) = tokenize front ++ tokenize rest) ∧
    ∀ (lead : String) (laid : List (String × String)), IsGap lead.toList →
      (∀ item ∈ laid, IsWord item.1.toList ∧ IsGap item.2.toList) →
      (∀ item ∈ laid.dropLast, item.2 ≠ "") →
      tokenize (lead ++ String.join (laid.map fun item => item.1 ++ item.2)) =
        laid.map fun item => Token.ofText item.1 := by
  refine ⟨fun c => isSeparator_iff, fun source => ⟨?_, ?_, ?_⟩, ?_, ?_⟩
  · rw [texts_tokenize]
    exact areMaximalRuns_words source.toList
  · intro token hmem
    obtain ⟨hword, hkind⟩ := allLexical_tokenize source token hmem
    exact ⟨fun heq => hword.ne_nil (by rw [heq]; rfl), hword.unseparated, hkind.symm⟩
  · rw [← String.toList_inj, String.toList_join, String.toList_ofList, ← flatten_words,
      ← texts_tokenize, List.flatMap_map, List.flatMap_def]
  · intro front gap rest hne hgap
    have hcut := words_append_gap_append front.toList hgap (mt String.toList_eq_nil_iff.mp hne)
      rest.toList
    rw [tokenize, String.toList_append, String.toList_append, List.append_assoc, hcut,
      List.map_append, tokenize, tokenize]
  · intro lead laid hlead hlaid hinner
    rw [tokenize, String.toList_append, words_gap_append hlead, String.toList_join,
      List.flatMap_map]
    simp only [String.toList_append]
    rw [words_layout hlaid hinner, List.map_map]
    apply List.map_congr_left
    intro item _
    exact congrArg Token.ofText String.ofList_toList

/-- Two words with a tab and a line feed between them, and three words with a gap in
front and none at the end. -/
theorem tokenize_layout_arrow :
    ("\t\n" ≠ "" ∧ IsGap "\t\n".toList ∧
      tokenize ("x" ++ "\t\n" ++ "1") = tokenize "x" ++ tokenize "1") ∧
    (∀ item ∈ [("x", "\r\n"), ("->", " "), ("1.5", "")],
      IsWord item.1.toList ∧ IsGap item.2.toList) ∧
    tokenize (" " ++ String.join ["x" ++ "\r\n", "->" ++ " ", "1.5" ++ ""]) =
      [⟨.identifier, "x"⟩, ⟨.operator, "->"⟩, ⟨.numeral, "1.5"⟩] := by
  have hgap : IsGap "\t\n".toList := by simp [IsGap, isSeparator]
  have hlaid : ∀ item ∈ [("x", "\r\n"), ("->", " "), ("1.5", "")],
      IsWord item.1.toList ∧ IsGap item.2.toList := by
    simp only [List.forall_mem_cons, List.not_mem_nil, false_implies, implies_true, and_true]
    refine ⟨⟨⟨?_, ?_⟩, ?_⟩, ⟨⟨?_, ?_⟩, ?_⟩, ⟨⟨?_, ?_⟩, ?_⟩⟩ <;> simp [IsGap, isSeparator]
  have hcut := tokenize_layout.2.2.1 "x" "\t\n" "1" (by decide) hgap
  have hfound := tokenize_layout.2.2.2 " " _ (by simp [IsGap, isSeparator]) hlaid (by simp)
  exact ⟨⟨by decide, hgap, hcut⟩, hlaid, hfound.trans (by decide +kernel)⟩

end Dataflow
