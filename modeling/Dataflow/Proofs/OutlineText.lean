import Dataflow.Outline
import Mathlib.Data.List.Basic

/-!
# The text of an outline

The text of an outline is its lines one after the other, and the level of a line
is told by its indentation, as long as no label begins with a blank or holds a
line feed.  The lines with their levels determine the outline: the branches of a
node are the lines after it up to the first one that is not deeper.
-/

namespace Dataflow.Outline

/-- The line of a node. -/
structure Line where
  level : Nat
  label : String

mutual

/-- The lines of an outline at a level. -/
def lines (level : Nat) : Outline → List Line
  | .node label branches => ⟨level, label⟩ :: allLines (level + 1) branches

/-- The lines of some outlines at a level. -/
def allLines (level : Nat) : List Outline → List Line
  | [] => []
  | outline :: rest => outline.lines level ++ allLines level rest

end

/-! ## Lines of a text -/

/-- A label takes one line and can be told from the indentation before it. -/
structure IsLabel (label : String) : Prop where
  unbroken : '\n' ∉ label.toList
  unindented : ∀ c ∈ label.toList.head?, (c == ' ') = false

instance (label : String) : Decidable (IsLabel label) :=
  decidable_of_iff ((!label.toList.contains '\n' && label.toList.head?.all (· != ' ')) = true) <| by
    rw [Bool.and_eq_true, Bool.not_eq_true', List.contains_eq_mem, decide_eq_false_iff_not,
      Option.all_eq_true]
    simp only [bne, Bool.not_eq_true']
    exact ⟨fun h => ⟨h.1, h.2⟩, fun h => ⟨h.unbroken, h.unindented⟩⟩

/-- Where characters with a property first end is determined by the text. -/
theorem append_inj_of_boundary {p : Char → Bool} {front front' rest rest' : List Char}
    (hfront : ∀ c ∈ front, p c = true) (hfront' : ∀ c ∈ front', p c = true)
    (hrest : ∀ c ∈ rest.head?, p c = false) (hrest' : ∀ c ∈ rest'.head?, p c = false)
    (heq : front ++ rest = front' ++ rest') : front = front' ∧ rest = rest' := by
  have htake : ∀ {front rest : List Char}, (∀ c ∈ front, p c = true) →
      (∀ c ∈ rest.head?, p c = false) → (front ++ rest).takeWhile p = front := by
    intro front rest hfront hrest
    rw [List.takeWhile_append_of_pos hfront]
    cases rest with
    | nil => simp
    | cons c rest => simp [hrest c rfl]
  have hsame := congrArg (List.takeWhile p) heq
  rw [htake hfront hrest, htake hfront' hrest'] at hsame
  rw [hsame] at heq
  exact ⟨hsame, List.append_cancel_left heq⟩

namespace Line

def text (line : Line) : List Char :=
  List.replicate (2 * line.level) ' ' ++ line.label.toList ++ ['\n']

theorem eq_of_text_append {left right : Line} {rest rest' : List Char}
    (hleft : IsLabel left.label) (hright : IsLabel right.label)
    (heq : left.text ++ rest = right.text ++ rest') : left = right ∧ rest = rest' := by
  have hblank : ∀ level, ∀ c ∈ List.replicate (2 * level) ' ', (c == ' ') = true := by
    intro level c hc
    rw [List.eq_of_mem_replicate hc, beq_self_eq_true]
  have hunbroken : ∀ line : Line, IsLabel line.label →
      ∀ c ∈ List.replicate (2 * line.level) ' ' ++ line.label.toList, (c != '\n') = true := by
    intro line hline c hc
    rw [bne_iff_ne]
    rintro rfl
    rcases List.mem_append.mp hc with hc | hc
    · exact absurd (hblank _ _ hc) (by decide)
    · exact hline.unbroken hc
  have hbreak : ∀ rest : List Char, ∀ c ∈ (['\n'] ++ rest).head?, (c != '\n') = false := by
    simp
  rw [text, text, List.append_assoc _ ['\n'] rest, List.append_assoc _ ['\n'] rest'] at heq
  obtain ⟨hline, hrest⟩ := append_inj_of_boundary (hunbroken left hleft)
    (hunbroken right hright) (hbreak rest) (hbreak rest') heq
  obtain ⟨hindent, hlabel⟩ := append_inj_of_boundary (hblank left.level) (hblank right.level)
    hleft.unindented hright.unindented hline
  have hlevel := congrArg List.length hindent
  rw [List.length_replicate, List.length_replicate] at hlevel
  obtain ⟨level, label⟩ := left
  obtain ⟨level', label'⟩ := right
  obtain rfl : level = level' := Nat.eq_of_mul_eq_mul_left Nat.two_pos hlevel
  obtain rfl : label = label' := String.ext hlabel
  exact ⟨rfl, List.tail_eq_of_cons_eq hrest⟩

theorem text_ne_nil (line : Line) : line.text ≠ [] := by
  simp [text]

/-- The lines can be told from their text. -/
theorem eq_of_flatMap_text {left right : List Line} (hleft : ∀ line ∈ left, IsLabel line.label)
    (hright : ∀ line ∈ right, IsLabel line.label)
    (heq : left.flatMap text = right.flatMap text) : left = right := by
  induction left generalizing right with
  | nil =>
      cases right with
      | nil => rfl
      | cons other others =>
          exact absurd (List.append_eq_nil_iff.mp heq.symm).1 other.text_ne_nil
  | cons line lines ih =>
      cases right with
      | nil => exact absurd (List.append_eq_nil_iff.mp heq).1 line.text_ne_nil
      | cons other others =>
          obtain ⟨hline, hlines⟩ := List.forall_mem_cons.mp hleft
          obtain ⟨hother, hothers⟩ := List.forall_mem_cons.mp hright
          rw [List.flatMap_cons, List.flatMap_cons] at heq
          obtain ⟨rfl, hrest⟩ := eq_of_text_append hline hother heq
          rw [ih hlines hothers hrest]

end Line

mutual

theorem toList_writeOnto (out : String) (level : Nat) : ∀ outline : Outline,
    (outline.writeOnto out level).toList = out.toList ++ (outline.lines level).flatMap Line.text
  | .node label branches => by
      have hbranches := fun out => toList_writeAllOnto out (level + 1) branches
      simp [writeOnto, lines, hbranches, Line.text, indent]

theorem toList_writeAllOnto (out : String) (level : Nat) : ∀ outlines : List Outline,
    (writeAllOnto out level outlines).toList =
      out.toList ++ (allLines level outlines).flatMap Line.text
  | [] => by simp [writeAllOnto, allLines]
  | outline :: rest => by
      have houtline := toList_writeOnto out level outline
      have hrest := fun out => toList_writeAllOnto out level rest
      simp [writeAllOnto, allLines, houtline, hrest]

end

/-! ## Outlines of lines -/

/-- The next line, if there is one, is not as deep as the level. -/
def EndsAbove (level : Nat) (rest : List Line) : Prop :=
  ∀ line ∈ rest.head?, line.level < level

/-- Lines at a level do not go on with deeper ones. -/
theorem endsAbove_allLines {level : Nat} {rest : List Line} (hrest : EndsAbove level rest)
    (outlines : List Outline) : EndsAbove (level + 1) (allLines level outlines ++ rest) := by
  intro line hline
  cases outlines with
  | nil => exact Nat.lt_succ_of_lt (hrest line hline)
  | cons outline outlines =>
      obtain ⟨label, branches⟩ := outline
      obtain rfl := Option.some.inj hline
      exact Nat.lt_succ_self level

/-- Some outlines and the lines after them are determined by all these lines, when
the lines after them are less deep. -/
theorem eq_of_allLines_append {level : Nat} {left right : List Outline} {rest rest' : List Line}
    (hrest : EndsAbove level rest) (hrest' : EndsAbove level rest')
    (heq : allLines level left ++ rest = allLines level right ++ rest') :
    left = right ∧ rest = rest' := by
  match left, right with
  | [], [] => exact ⟨rfl, heq⟩
  | [], .node label branches :: others =>
      have hlt := hrest ⟨level, label⟩ (congrArg List.head? heq)
      exact absurd hlt (Nat.lt_irrefl level)
  | .node label branches :: outlines, [] =>
      have hlt := hrest' ⟨level, label⟩ (congrArg List.head? heq.symm)
      exact absurd hlt (Nat.lt_irrefl level)
  | .node label branches :: outlines, .node label' branches' :: others =>
      simp only [allLines, lines, List.cons_append, List.append_assoc] at heq
      obtain ⟨hline, heq⟩ := List.cons.inj heq
      obtain ⟨rfl, hafter⟩ := eq_of_allLines_append (endsAbove_allLines hrest outlines)
        (endsAbove_allLines hrest' others) heq
      obtain ⟨rfl, hlines⟩ := eq_of_allLines_append hrest hrest' hafter
      obtain rfl : label = label' := congrArg Line.label hline
      exact ⟨rfl, hlines⟩

/-! ## Rendering -/

/-- Every node can be told from the text. -/
def Legible (outline : Outline) : Prop :=
  ∀ level, ∀ line ∈ outline.lines level, IsLabel line.label

theorem mem_allLines {level : Nat} {line : Line} {outlines : List Outline} :
    line ∈ allLines level outlines ↔ ∃ outline ∈ outlines, line ∈ outline.lines level := by
  induction outlines with
  | nil => simp [allLines]
  | cons outline outlines ih => simp [allLines, ih]

theorem legible_node {label : String} {branches : List Outline} (hlabel : IsLabel label)
    (hbranches : ∀ branch ∈ branches, branch.Legible) : Legible (.node label branches) := by
  intro level line hline
  rw [lines] at hline
  rcases List.mem_cons.mp hline with rfl | hline
  · exact hlabel
  · obtain ⟨branch, hbranch, hline⟩ := mem_allLines.mp hline
    exact hbranches branch hbranch (level + 1) line hline

/-- Outlines whose nodes can be told from the text are told from it. -/
theorem eq_of_render {left right : Outline} (hleft : left.Legible) (hright : right.Legible)
    (heq : left.render = right.render) : left = right := by
  have htext := congrArg String.toList heq
  rw [render, render, toList_writeOnto, toList_writeOnto] at htext
  have hlines := Line.eq_of_flatMap_text (hleft 0) (hright 0) (List.append_cancel_left htext)
  have hall : allLines 0 [left] ++ [] = allLines 0 [right] ++ [] := by
    simpa [allLines] using hlines
  have hend : EndsAbove 0 [] := by simp [EndsAbove]
  obtain ⟨houtlines, -⟩ := eq_of_allLines_append hend hend hall
  exact List.head_eq_of_cons_eq houtlines

end Dataflow.Outline
