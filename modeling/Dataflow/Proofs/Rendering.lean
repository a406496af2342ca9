import Dataflow.Program.DecidableEq
import Dataflow.Program.Outline
import Dataflow.Proofs.OutlineText
import Dataflow.Proofs.RoundTrip

/-!
# Rendered programs

Programs that are rendered as the same outline text are the same program, as long
as no name and no literal of them holds a line feed.  The text determines the
outline, and the label of a node determines what the node stands for, since only
the labels of names and literals hold quotes.  The programs that are parsed hold
no line feeds, because a line feed separates words.
-/

namespace Dataflow

/-! ## The outline determines the program -/

theorem Atom.outline_inj {left right : Atom} : left.outline = right.outline ↔ left = right := by
  cases left <;> cases right <;>
    simp [outline, Outline.leaf, toString, ← String.toList_inj]

/-- Only the label of an atom holds a quote. -/
theorem Atom.outline_ne_node (value : Atom) {label : String} (hlabel : '\'' ∉ label.toList)
    (branches : List Outline) : value.outline ≠ .node label branches := by
  rintro heq
  cases value with
  | identifier name =>
      rw [← (Outline.node.inj heq).1] at hlabel
      simp [toString] at hlabel
  | literal text =>
      rw [← (Outline.node.inj heq).1] at hlabel
      simp [toString] at hlabel

theorem Signature.outline_inj {left right : Signature} :
    left.outline = right.outline ↔ left = right := by
  cases left <;> cases right <;> simp [outline, Atom.outline_inj]

theorem Settings.outlines_inj {left right : Settings} :
    left.outlines = right.outlines ↔ left = right := by
  have hentry : Function.Injective fun (entry : String × Atom) =>
      Outline.node "Property" [(Atom.identifier entry.1).outline, entry.2.outline] := by
    rintro ⟨name, value⟩ ⟨other, value'⟩ heq
    simpa [Atom.outline_inj] using heq
  constructor
  · intro heq
    exact ext (hentry.list_map heq)
  · exact congrArg outlines

mutual

theorem Pattern.eq_of_outline {left right : Pattern} (heq : left.outline = right.outline) :
    left = right := by
  match left, right with
  | .atom value, .atom other => rw [Atom.outline_inj.mp heq]
  | .constructor name args, .constructor other others =>
      obtain ⟨hname, hargs⟩ := List.cons.inj (Outline.node.inj heq).2
      obtain rfl := Atom.identifier.inj (Atom.outline_inj.mp hname)
      rw [Pattern.eq_of_outlines hargs]
  | .atom value, .constructor _ _ => exact absurd heq (value.outline_ne_node (by decide) _)
  | .constructor _ _, .atom value => exact absurd heq.symm (value.outline_ne_node (by decide) _)

theorem Pattern.eq_of_outlines {left right : List Pattern}
    (heq : Pattern.outlines left = Pattern.outlines right) : left = right := by
  match left, right with
  | [], [] => rfl
  | pattern :: rest, other :: others =>
      obtain ⟨hhead, htail⟩ := List.cons.inj heq
      rw [Pattern.eq_of_outline hhead, Pattern.eq_of_outlines htail]
  | [], _ :: _ | _ :: _, [] => contradiction

end

mutual

theorem Expr.eq_of_outline {left right : Expr} (heq : left.outline = right.outline) :
    left = right := by
  match left, right with
  | .atom value, .atom other => rw [Atom.outline_inj.mp heq]
  | .flow steps, .flow others => rw [Expr.eq_of_outlines (Outline.node.inj heq).2]
  | .map entries, .map others => rw [Expr.eq_of_entryOutlines (Outline.node.inj heq).2]
  | .config name settings, .config other others =>
      obtain ⟨hname, hsettings⟩ := List.cons.inj (Outline.node.inj heq).2
      obtain rfl := Atom.identifier.inj (Atom.outline_inj.mp hname)
      rw [Settings.outlines_inj.mp hsettings]
  | .atom value, .flow _ | .atom value, .map _ | .atom value, .config _ _ =>
      exact absurd heq (value.outline_ne_node (by decide) _)
  | .flow _, .atom value | .map _, .atom value | .config _ _, .atom value =>
      exact absurd heq.symm (value.outline_ne_node (by decide) _)
  | .flow _, .map _ | .flow _, .config _ _ | .map _, .flow _ | .map _, .config _ _
  | .config _ _, .flow _ | .config _ _, .map _ => simp [outline] at heq

theorem Expr.eq_of_outlines {left right : List Expr}
    (heq : Expr.outlines left = Expr.outlines right) : left = right := by
  match left, right with
  | [], [] => rfl
  | expr :: rest, other :: others =>
      obtain ⟨hhead, htail⟩ := List.cons.inj heq
      rw [Expr.eq_of_outline hhead, Expr.eq_of_outlines htail]
  | [], _ :: _ | _ :: _, [] => contradiction

theorem Expr.eq_of_entryOutlines {left right : List (Pattern × Expr)}
    (heq : Expr.entryOutlines left = Expr.entryOutlines right) : left = right := by
  match left, right with
  | [], [] => rfl
  | (key, value) :: rest, (otherKey, other) :: others =>
      obtain ⟨hhead, htail⟩ := List.cons.inj heq
      obtain ⟨hkey, hvalue⟩ := List.cons.inj (Outline.node.inj hhead).2
      rw [Pattern.eq_of_outline hkey, Expr.eq_of_outline (List.head_eq_of_cons_eq hvalue),
        Expr.eq_of_entryOutlines htail]
  | [], _ :: _ | _ :: _, [] => contradiction

end

/-- The number of branches tells whether a type is declared. -/
theorem Assignment.outline_inj {left right : Assignment} :
    left.outline = right.outline ↔ left = right := by
  constructor
  · obtain ⟨name, signature, value⟩ := left
    obtain ⟨otherName, otherSignature, other⟩ := right
    intro heq
    obtain ⟨hname, hbody⟩ := List.cons.inj (Outline.node.inj heq).2
    obtain rfl := Atom.identifier.inj (Atom.outline_inj.mp hname)
    cases signature <;> cases otherSignature
    all_goals simp [Signature.outline_inj] at hbody
    · rw [Expr.eq_of_outline hbody]
    · rw [hbody.1, Expr.eq_of_outline hbody.2]
  · exact congrArg outline

theorem Statement.eq_of_outline {left right : Statement} (heq : left.outline = right.outline) :
    left = right := by
  match left, right with
  | .empty, .empty => rfl
  | .importName name signature, .importName other otherSignature =>
      obtain ⟨hname, hsignature⟩ := List.cons.inj (Outline.node.inj heq).2
      obtain rfl := Atom.identifier.inj (Atom.outline_inj.mp hname)
      rw [Signature.outline_inj.mp (List.head_eq_of_cons_eq hsignature)]
  | .exportFlow assignment, .exportFlow other =>
      have hassignment := List.head_eq_of_cons_eq (Outline.node.inj heq).2
      rw [Assignment.outline_inj.mp hassignment]
  | .assign assignment, .assign other => rw [Assignment.outline_inj.mp heq]
  | .empty, .importName _ _ | .empty, .exportFlow _ | .empty, .assign _
  | .importName _ _, .empty | .importName _ _, .exportFlow _ | .importName _ _, .assign _
  | .exportFlow _, .empty | .exportFlow _, .importName _ _ | .exportFlow _, .assign _
  | .assign _, .empty | .assign _, .importName _ _ | .assign _, .exportFlow _ =>
      simp [outline, kind, Outline.leaf, Assignment.outline] at heq

theorem Program.eq_of_outline {left right : Program} (heq : outline left = outline right) :
    left = right := by
  have hinjective : Function.Injective Statement.outline := fun _ _ => Statement.eq_of_outline
  exact hinjective.list_map (Outline.node.inj heq).2

/-! ## Labels without line feeds -/

/-- No text of the tokens holds a line feed. -/
def Unbroken (tokens : List Token) : Prop :=
  ∀ token ∈ tokens, '\n' ∉ token.text.toList

@[simp]
theorem unbroken_cons {token : Token} {tokens : List Token} :
    Unbroken (token :: tokens) ↔ '\n' ∉ token.text.toList ∧ Unbroken tokens :=
  List.forall_mem_cons

@[simp]
theorem unbroken_append {front rest : List Token} :
    Unbroken (front ++ rest) ↔ Unbroken front ∧ Unbroken rest :=
  List.forall_mem_append

/-- No name and no literal of the program holds a line feed.  They are texts of its
canonical tokens, and the other tokens are marks, which hold none. -/
def Program.Unbroken (program : Program) : Prop :=
  Dataflow.Unbroken (Program.tokens program)

theorem unbroken_of_allLexical {tokens : List Token} (hlexical : AllLexical tokens) :
    Unbroken tokens := by
  intro token hmem hbreak
  have hseparator := (hlexical token hmem).isWord.unseparated '\n' hbreak
  contradiction

theorem Atom.legible_outline {value : Atom} (hvalue : '\n' ∉ value.token.text.toList) :
    value.outline.Legible := by
  cases value with
  | identifier name =>
      exact Outline.legible_node ⟨by simpa [toString, token] using hvalue, by simp [toString]⟩ nofun
  | literal text =>
      exact Outline.legible_node ⟨by simpa [toString, token] using hvalue, by simp [toString]⟩ nofun

/-- A name with its value, as in a property. -/
theorem Atom.legible_property {name : String} {value : Atom}
    (hname : '\n' ∉ (Token.identifier name).text.toList)
    (hvalue : '\n' ∉ value.token.text.toList) :
    (Outline.node "Property" [(Atom.identifier name).outline, value.outline]).Legible :=
  Outline.legible_node (by decide) (List.forall_mem_cons.mpr
    ⟨Atom.legible_outline hname, List.forall_mem_singleton.mpr (Atom.legible_outline hvalue)⟩)

theorem Signature.legible_outline {signature : Signature} (htokens : Unbroken signature.tokens) :
    signature.outline.Legible := by
  cases signature with
  | simple name =>
      simp only [tokens, unbroken_cons] at htokens
      exact Outline.legible_node (by decide)
        (List.forall_mem_singleton.mpr (Atom.legible_outline htokens.1))
  | flow input output =>
      simp only [tokens, unbroken_cons] at htokens
      obtain ⟨hinput, -, houtput, -⟩ := htokens
      exact Outline.legible_node (by decide) (List.forall_mem_cons.mpr
        ⟨Atom.legible_outline hinput,
          List.forall_mem_singleton.mpr (Atom.legible_outline houtput)⟩)

mutual

theorem Pattern.legible_outline : ∀ pattern : Pattern, Unbroken pattern.tokens →
    pattern.outline.Legible
  | .atom value, htokens => Atom.legible_outline (unbroken_cons.mp htokens).1
  | .constructor name args, htokens => by
      simp only [Pattern.tokens, unbroken_cons, unbroken_append] at htokens
      obtain ⟨hname, -, hargs, -⟩ := htokens
      exact Outline.legible_node (by decide) (List.forall_mem_cons.mpr
        ⟨Atom.legible_outline hname, Pattern.legible_outlines args hargs⟩)

theorem Pattern.legible_outlines : ∀ args : List Pattern, Unbroken (Pattern.argsTokens args) →
    ∀ branch ∈ Pattern.outlines args, branch.Legible
  | [], _ => nofun
  | [arg], htokens => List.forall_mem_singleton.mpr (Pattern.legible_outline arg htokens)
  | arg :: next :: args, htokens => by
      simp only [Pattern.argsTokens, unbroken_cons, unbroken_append] at htokens
      exact List.forall_mem_cons.mpr ⟨Pattern.legible_outline arg htokens.1,
        Pattern.legible_outlines (next :: args) htokens.2.2⟩

end

theorem Settings.legible_outlines : ∀ properties : List (String × Atom),
    Unbroken (propertiesTokens properties) →
      ∀ property ∈ properties, (Outline.node "Property"
        [(Atom.identifier property.1).outline, property.2.outline]).Legible
  | [], _ => nofun
  | [(name, value)], htokens => by
      simp only [propertiesTokens, unbroken_cons] at htokens
      obtain ⟨hname, -, hvalue, -⟩ := htokens
      exact List.forall_mem_singleton.mpr (Atom.legible_property hname hvalue)
  | (name, value) :: next :: properties, htokens => by
      simp only [propertiesTokens, unbroken_cons] at htokens
      obtain ⟨hname, -, hvalue, -, hrest⟩ := htokens
      exact List.forall_mem_cons.mpr
        ⟨Atom.legible_property hname hvalue, legible_outlines (next :: properties) hrest⟩

/-- An entry is legible when its key and its value are. -/
theorem Expr.legible_entry {key value : Outline} (hkey : key.Legible) (hvalue : value.Legible) :
    (Outline.node "MapEntry" [key, value]).Legible :=
  Outline.legible_node (by decide)
    (List.forall_mem_cons.mpr ⟨hkey, List.forall_mem_singleton.mpr hvalue⟩)

mutual

theorem Expr.legible_outline : ∀ expr : Expr, Unbroken expr.tokens → expr.outline.Legible
  | .atom value, htokens => Atom.legible_outline (unbroken_cons.mp htokens).1
  | .flow steps, htokens => Outline.legible_node (by decide) (Expr.legible_outlines steps htokens)
  | .map entries, htokens => by
      simp only [Expr.tokens, unbroken_cons, unbroken_append] at htokens
      exact Outline.legible_node (by decide) (Expr.legible_entryOutlines entries htokens.2.1)
  | .config name settings, htokens => by
      simp only [Expr.tokens, unbroken_cons, unbroken_append] at htokens
      obtain ⟨hname, -, hsettings, -⟩ := htokens
      refine Outline.legible_node (by decide)
        (List.forall_mem_cons.mpr ⟨Atom.legible_outline hname, ?_⟩)
      exact List.forall_mem_map.mpr (Settings.legible_outlines settings.entries hsettings)

theorem Expr.legible_outlines : ∀ steps : List Expr, Unbroken (Expr.stepsTokens steps) →
    ∀ branch ∈ Expr.outlines steps, branch.Legible
  | [], _ => nofun
  | [step], htokens => List.forall_mem_singleton.mpr (Expr.legible_outline step htokens)
  | step :: next :: steps, htokens => by
      simp only [Expr.stepsTokens, unbroken_cons, unbroken_append] at htokens
      exact List.forall_mem_cons.mpr ⟨Expr.legible_outline step htokens.1,
        Expr.legible_outlines (next :: steps) htokens.2.2⟩

theorem Expr.legible_entryOutlines : ∀ entries : List (Pattern × Expr),
    Unbroken (Expr.entriesTokens entries) → ∀ branch ∈ Expr.entryOutlines entries, branch.Legible
  | [], _ => nofun
  | [(key, value)], htokens => by
      simp only [Expr.entriesTokens, unbroken_cons, unbroken_append] at htokens
      have hkey := Pattern.legible_outline key htokens.1
      have hvalue := Expr.legible_outline value htokens.2.2
      exact List.forall_mem_singleton.mpr (Expr.legible_entry hkey hvalue)
  | (key, value) :: next :: entries, htokens => by
      simp only [Expr.entriesTokens, unbroken_cons, unbroken_append] at htokens
      obtain ⟨hkeyTokens, -, hvalueTokens, -, hrest⟩ := htokens
      have hkey := Pattern.legible_outline key hkeyTokens
      have hvalue := Expr.legible_outline value hvalueTokens
      exact List.forall_mem_cons.mpr
        ⟨Expr.legible_entry hkey hvalue, Expr.legible_entryOutlines (next :: entries) hrest⟩

end

theorem Assignment.legible_outline {assignment : Assignment}
    (htokens : Unbroken assignment.tokens) : assignment.outline.Legible := by
  obtain ⟨name, signature, value⟩ := assignment
  cases signature with
  | none =>
      simp only [tokens, unbroken_cons] at htokens
      have hvalue := Expr.legible_outline value htokens.2.2
      exact Outline.legible_node (by decide) (List.forall_mem_cons.mpr
        ⟨Atom.legible_outline htokens.1, List.forall_mem_singleton.mpr hvalue⟩)
  | some signature =>
      simp only [tokens, unbroken_cons, unbroken_append] at htokens
      obtain ⟨hname, -, htype, -, hvalueTokens⟩ := htokens
      have hvalue := Expr.legible_outline value hvalueTokens
      exact Outline.legible_node (by decide) (List.forall_mem_cons.mpr
        ⟨Atom.legible_outline hname, List.forall_mem_cons.mpr
          ⟨Signature.legible_outline htype, List.forall_mem_singleton.mpr hvalue⟩⟩)

theorem Statement.isLabel_kind (statement : Statement) : Outline.IsLabel statement.kind := by
  cases statement <;> exact ⟨by simp [kind], by simp [kind]⟩

theorem Statement.legible_outline {statement : Statement} (htokens : Unbroken statement.tokens) :
    statement.outline.Legible := by
  cases statement with
  | empty => exact Outline.legible_node (by decide) nofun
  | importName name signature =>
      simp only [tokens, unbroken_cons] at htokens
      obtain ⟨-, hname, -, htype⟩ := htokens
      exact Outline.legible_node (isLabel_kind _) (List.forall_mem_cons.mpr
        ⟨Atom.legible_outline hname,
          List.forall_mem_singleton.mpr (Signature.legible_outline htype)⟩)
  | exportFlow assignment =>
      have hassignment := Assignment.legible_outline (unbroken_cons.mp htokens).2
      exact Outline.legible_node (isLabel_kind _) (List.forall_mem_singleton.mpr hassignment)
  | assign assignment => exact Assignment.legible_outline htokens

namespace Program

theorem legible_outline {program : Program} (hunbroken : Unbroken program) :
    (outline program).Legible := by
  refine Outline.legible_node (by decide) (List.forall_mem_map.mpr ?_)
  induction program with
  | nil => nofun
  | cons statement program ih =>
      simp only [Unbroken, tokens, unbroken_append, unbroken_cons] at hunbroken
      exact List.forall_mem_cons.mpr
        ⟨Statement.legible_outline hunbroken.1, ih hunbroken.2.2⟩

theorem eq_of_render {left right : Program} (hleft : Unbroken left) (hright : Unbroken right)
    (heq : render left = render right) : left = right :=
  eq_of_outline (Outline.eq_of_render (legible_outline hleft) (legible_outline hright) heq)

theorem WellFormed.unbroken {program : Program} (hwell : WellFormed program) :
    Unbroken program :=
  unbroken_of_allLexical (allLexical_tokens hwell)

/-- Programs without line feeds in their names and literals are told apart by how
they are rendered, and so are programs that are parsed. -/
theorem render_determines :
    (∀ left right : Program, Unbroken left → Unbroken right →
        (render left = render right ↔ left = right)) ∧
      ∀ (limits limits' : Limits) (source source' : String) (program program' : Program),
        parse limits source = .ok program → parse limits' source' = .ok program' →
          (render program = render program' ↔ program = program') := by
  constructor
  · intro left right hleft hright
    exact ⟨eq_of_render hleft hright, congrArg render⟩
  · intro limits limits' source source' program program' hparse hparse'
    have hunbroken := (wellFormed_of_parse hparse).unbroken
    have hunbroken' := (wellFormed_of_parse hparse').unbroken
    exact ⟨eq_of_render hunbroken hunbroken', congrArg render⟩

/-- A flow without steps, which is never parsed, is told from one whose only step is
a flow without steps, and an argument of an argument from a second argument. -/
theorem render_ne_nested :
    (Unbroken [.assign ⟨"x' 'y", none, .flow []⟩] ∧
        Unbroken [.assign ⟨"x' 'y", none, .flow [.flow []]⟩] ∧
        render [.assign ⟨"x' 'y", none, .flow []⟩] ≠
          render [.assign ⟨"x' 'y", none, .flow [.flow []]⟩]) ∧
      ∃ left right : Program,
        parse {} "x = \x7b f ( g ( a ) ) : b \x7d ;" = .ok left ∧
          parse {} "x = \x7b f ( g , a ) : b \x7d ;" = .ok right ∧ render left ≠ render right := by
  have hflow : Unbroken [.assign ⟨"x' 'y", none, .flow []⟩] := by
    simp [Unbroken, Dataflow.Unbroken, tokens, Statement.tokens, Assignment.tokens, Expr.tokens,
      Expr.stepsTokens, Token.mark]
  have hnested : Unbroken [.assign ⟨"x' 'y", none, .flow [.flow []]⟩] := by
    simp [Unbroken, Dataflow.Unbroken, tokens, Statement.tokens, Assignment.tokens, Expr.tokens,
      Expr.stepsTokens, Token.mark]
  have hinner : parse {} "x = \x7b f ( g ( a ) ) : b \x7d ;" = .ok [.assign ⟨"x", none,
      .map [(.constructor "f" [.constructor "g" [.atom (.identifier "a")]],
        .atom (.identifier "b"))]⟩] := by
    decide +kernel
  have hsecond : parse {} "x = \x7b f ( g , a ) : b \x7d ;" = .ok [.assign ⟨"x", none,
      .map [(.constructor "f" [.atom (.identifier "g"), .atom (.identifier "a")],
        .atom (.identifier "b"))]⟩] := by
    decide +kernel
  refine ⟨⟨hflow, hnested, fun heq => ?_⟩, _, _, hinner, hsecond, fun heq => ?_⟩
  · exact absurd ((render_determines.1 _ _ hflow hnested).mp heq) (by decide)
  · exact absurd ((render_determines.2 _ _ _ _ _ _ hinner hsecond).mp heq) (by decide)

end Program

end Dataflow
