import Dataflow.Proofs.Arrows
import Dataflow.Proofs.Brackets.Basic

/-!
# Maps and their brackets

The brackets of a statement are balanced, and its maps are what its braces enclose:
the maps of a statement in the order in which they open belong to its opening braces
in their order.  What a pair of braces encloses falls into segments at its commas of
depth zero, and every segment is one entry: the pattern before its first colon of
depth zero, and the value that the rest of it has as the value of an assignment.
-/

namespace Dataflow

/-! ## The maps of a statement -/

mutual

/-- The maps of an expression, in the order in which they open. -/
def Expr.maps : Expr → List (List (Pattern × Expr))
  | .atom _ => []
  | .flow steps => Expr.stepsMaps steps
  | .map entries => entries :: Expr.entriesMaps entries
  | .config _ _ => []

def Expr.stepsMaps : List Expr → List (List (Pattern × Expr))
  | [] => []
  | step :: steps => step.maps ++ Expr.stepsMaps steps

def Expr.entriesMaps : List (Pattern × Expr) → List (List (Pattern × Expr))
  | [] => []
  | (_, value) :: entries => value.maps ++ Expr.entriesMaps entries

end

def Statement.maps : Statement → List (List (Pattern × Expr))
  | .empty => []
  | .importName _ _ => []
  | .exportFlow assignment => assignment.value.maps
  | .assign assignment => assignment.value.maps

/-- The segment is the key, a colon, and tokens that an assignment reads as the
value. -/
def SpellsEntry (segment : List Token) (entry : Pattern × Expr) : Prop :=
  beforeColon segment = entry.1.tokens ∧
    ∃ value, segment = beforeColon segment ++ .mark .colon :: value ∧
      ∀ name limit, value.length + 3 ≤ limit →
        Program.ofTokens limit
            (.identifier name :: .mark .equals :: (value ++ [.mark .semicolon])) =
          .ok [.assign ⟨name, none, entry.2⟩]

/-- No tokens are no entries, and otherwise every segment is an entry. -/
def SpellsMap (block : List Token) (entries : List (Pattern × Expr)) : Prop :=
  if block = [] then entries = [] else List.Forall₂ SpellsEntry (segments block) entries

/-- The tokens of a statement have its maps between their braces. -/
structure Bracketed (run : List Token) (statement : Statement) : Prop where
  balanced : Balanced run
  /-- A block stands before the closing brace that belongs to its opening brace. -/
  enclosed : ∀ before rest, run = before ++ .mark .openBrace :: rest →
    ∃ after, rest = untilClose rest ++ .mark .closeBrace :: after ∧ Balanced (untilClose rest)
  maps : List.Forall₂ SpellsMap (blocks run) statement.maps

/-! ## Brackets of derived tokens -/

theorem Atom.bracket_token (value : Atom) : value.token.bracket = .plain := by
  cases value <;> rfl

theorem Settings.DerivesProperties.balanced {tokens : List Token}
    {properties : List (String × Atom)} (hderives : DerivesProperties tokens properties) :
    Balanced tokens := by
  induction hderives with
  | one name value => exact .cons rfl (.cons rfl (.cons value.bracket_token .nil))
  | cons name value hrest ih =>
      exact .cons rfl (.cons rfl (.cons value.bracket_token (.cons rfl ih)))

theorem Settings.Derives.balanced {tokens : List Token} {settings : Settings}
    (hderives : Settings.Derives tokens settings) : Balanced tokens := by
  cases hderives with
  | empty => exact .nil
  | collect hproperties hcollects => exact hproperties.balanced

/-- The marks that only stand within the brackets of a pattern or an expression. -/
def Token.Mark.Separates (m : Token.Mark) : Prop :=
  m = .comma ∨ m = .colon ∨ m = .equals

theorem Token.Mark.Separates.bracket {m : Token.Mark} (hm : m.Separates) :
    (Token.mark m).bracket = .plain := by
  rcases hm with rfl | rfl | rfl <;> rfl

theorem undivided_atom (m : Token.Mark) (value : Atom) : Undivided m [value.token] :=
  .cons value.bracket_token (value.token_ne_mark m) (.nil m)

theorem Undivided.cons_identifier {m : Token.Mark} {rest : List Token} (name : String)
    (hrest : Undivided m rest) : Undivided m (.identifier name :: rest) :=
  hrest.cons rfl (Token.identifier_ne_mark name m)

theorem undivided_arrows {m : Token.Mark} (hm : m.Separates) (arrows : Nat) :
    Undivided m (List.replicate arrows (.mark .arrow)) := by
  induction arrows with
  | zero => exact .nil m
  | succ arrows ih => exact ih.cons rfl (by rcases hm with rfl | rfl | rfl <;> simp)

mutual

theorem Pattern.Derives.undivided {m : Token.Mark} (hm : m.Separates) {tokens : List Token}
    {pattern : Pattern} : Pattern.Derives tokens pattern → Undivided m tokens
  | .atom value => undivided_atom m value
  | .constant name => .cons_identifier name (.enclose hm.bracket rfl rfl .nil)
  | .constructor name hargs =>
      .cons_identifier name (.enclose hm.bracket rfl rfl hargs.balanced)

theorem Pattern.DerivesArgs.balanced {tokens : List Token} {args : List Pattern} :
    Pattern.DerivesArgs tokens args → Balanced tokens
  | .one harg => (harg.undivided (.inl rfl)).balanced
  | .cons harg hrest =>
      (harg.undivided (.inl rfl)).balanced.append (.cons rfl hrest.balanced)

end

theorem Pattern.Derives.balanced {tokens : List Token} {pattern : Pattern}
    (hderives : Pattern.Derives tokens pattern) : Balanced tokens :=
  (hderives.undivided (.inl rfl)).balanced

mutual

theorem Expr.Derives.undivided {m : Token.Mark} (hm : m.Separates) {tokens : List Token}
    {expr : Expr} : Expr.Derives tokens expr → Undivided m tokens
  | .step hsteps => hsteps.undivided hm
  | .flow hsteps => hsteps.undivided hm

theorem Expr.DerivesSteps.undivided {m : Token.Mark} (hm : m.Separates) {tokens : List Token}
    {steps : List Expr} : Expr.DerivesSteps tokens steps → Undivided m tokens
  | .nil => .nil m
  | .cons arrows hstep hrest =>
      (undivided_arrows hm arrows).append ((hstep.undivided hm).append (hrest.undivided hm))

theorem Expr.DerivesStep.undivided {m : Token.Mark} (hm : m.Separates) {tokens : List Token}
    {step : Expr} : Expr.DerivesStep tokens step → Undivided m tokens
  | .atom value => undivided_atom m value
  | .config name hsettings =>
      .cons_identifier name (.enclose hm.bracket rfl rfl hsettings.balanced)
  | .map hmap => hmap.undivided hm

theorem Expr.DerivesMap.undivided {m : Token.Mark} (hm : m.Separates) {tokens : List Token}
    {entries : List (Pattern × Expr)} : Expr.DerivesMap tokens entries → Undivided m tokens
  | .empty => .enclose hm.bracket rfl rfl .nil
  | .entries hentries => .enclose hm.bracket rfl rfl hentries.balanced

theorem Expr.DerivesEntries.balanced {tokens : List Token} {entries : List (Pattern × Expr)} :
    Expr.DerivesEntries tokens entries → Balanced tokens
  | .one hkey hvalue => hkey.balanced.append (.cons rfl (hvalue.undivided (.inl rfl)).balanced)
  | .cons hkey hvalue hrest =>
      hkey.balanced.append
        (.cons rfl ((hvalue.undivided (.inl rfl)).balanced.append (.cons rfl hrest.balanced)))

end

theorem Expr.Derives.balanced {tokens : List Token} {expr : Expr}
    (hderives : Expr.Derives tokens expr) : Balanced tokens :=
  (hderives.undivided (.inl rfl)).balanced

/-! ## Marks of patterns and settings -/

theorem Settings.DerivesProperties.mark_not_mem {m : Token.Mark} (hm : m ∉ [.equals, .comma])
    {tokens : List Token} {properties : List (String × Atom)}
    (hderives : DerivesProperties tokens properties) : .mark m ∉ tokens := by
  simp only [List.mem_cons, List.not_mem_nil, or_false, not_or] at hm
  induction hderives with
  | one name value => simp [hm, (value.token_ne_mark m).symm]
  | cons name value hrest ih => simp [hm, (value.token_ne_mark m).symm, ih]

theorem Settings.Derives.mark_not_mem {m : Token.Mark} (hm : m ∉ [.equals, .comma])
    {tokens : List Token} {settings : Settings} (hderives : Settings.Derives tokens settings) :
    .mark m ∉ tokens := by
  cases hderives with
  | empty => exact List.not_mem_nil
  | collect hproperties hcollects => exact hproperties.mark_not_mem hm

section

variable {m : Token.Mark} (hm : m ∉ [.openParen, .closeParen, .comma])

include hm

mutual

theorem Pattern.Derives.mark_not_mem {tokens : List Token} {pattern : Pattern} :
    Pattern.Derives tokens pattern → .mark m ∉ tokens
  | .atom value => by simp [(value.token_ne_mark m).symm]
  | .constant name => by simp_all
  | .constructor name hargs => by
      have hargs := hargs.mark_not_mem
      simp_all

theorem Pattern.DerivesArgs.mark_not_mem {tokens : List Token} {args : List Pattern} :
    Pattern.DerivesArgs tokens args → .mark m ∉ tokens
  | .one harg => harg.mark_not_mem
  | .cons harg hrest => by
      have harg := harg.mark_not_mem
      have hrest := hrest.mark_not_mem
      simp_all

end

end

/-! ## The blocks of derived tokens -/

theorem Pattern.Derives.blocks_append {tokens : List Token} {pattern : Pattern}
    (hderives : Pattern.Derives tokens pattern) (rest : List Token) :
    blocks (tokens ++ rest) = blocks rest := by
  rw [hderives.balanced.blocks_append, blocks_eq_nil (hderives.mark_not_mem (by decide)),
    List.nil_append]

theorem blocks_arrows_append (arrows : Nat) (rest : List Token) :
    blocks (List.replicate arrows (.mark .arrow) ++ rest) = blocks rest := by
  induction arrows with
  | zero => rfl
  | succ arrows ih => exact ih

theorem blocks_atom (value : Atom) : blocks [value.token] = [] :=
  blocks_cons (value.token_ne_mark _) []

theorem blocks_config (name : String) {tokens : List Token} {settings : Settings}
    (hsettings : Settings.Derives tokens settings) :
    blocks (.identifier name :: .mark .openParen :: (tokens ++ [.mark .closeParen])) = [] := by
  apply blocks_eq_nil
  simpa using hsettings.mark_not_mem (by decide)

theorem spellsMap_nil : SpellsMap [] [] := by
  rw [SpellsMap, if_pos rfl]

theorem spellsEntry_of_derives {keyTokens valueTokens : List Token} {key : Pattern}
    {value : Expr} (hkey : Pattern.Derives keyTokens key)
    (hvalue : Expr.Derives valueTokens value) :
    SpellsEntry (keyTokens ++ .mark .colon :: valueTokens) (key, value) := by
  have hbefore := (hkey.undivided (.inr (.inl rfl))).beforeColon_append valueTokens
  refine ⟨hbefore.trans hkey.eq_tokens, valueTokens, by rw [hbefore], fun name limit hlimit => ?_⟩
  have hheight : value.height + 2 < limit := by
    have hle := hvalue.height_le_length
    omega
  exact Program.ofTokens_assign_eq_ok_iff.mpr ⟨hvalue, hheight⟩

/-- No comma stands in an entry outside of its brackets. -/
theorem undivided_entry {keyTokens valueTokens : List Token} {key : Pattern} {value : Expr}
    (hkey : Pattern.Derives keyTokens key) (hvalue : Expr.Derives valueTokens value) :
    Undivided .comma (keyTokens ++ .mark .colon :: valueTokens) :=
  (hkey.undivided (.inl rfl)).append (.cons rfl (by simp) (hvalue.undivided (.inl rfl)))

/-- The segments of the entries of a map are its entries, by induction on them. -/
theorem Expr.DerivesEntries.spellsEntries {tokens : List Token}
    {entries : List (Pattern × Expr)} :
    Expr.DerivesEntries tokens entries →
      List.Forall₂ SpellsEntry (segments tokens) entries
  | .one hkey hvalue => by
      rw [(undivided_entry hkey hvalue).segments_eq]
      exact .cons (spellsEntry_of_derives hkey hvalue) .nil
  | .cons hkey hvalue hrest => by
      rw [← List.cons_append, ← List.append_assoc, (undivided_entry hkey hvalue).segments_append]
      exact .cons (spellsEntry_of_derives hkey hvalue) hrest.spellsEntries

/-- The tokens between the braces of a map spell it. -/
theorem Expr.DerivesEntries.spellsMap {tokens : List Token} {entries : List (Pattern × Expr)}
    (hderives : Expr.DerivesEntries tokens entries) : SpellsMap tokens entries := by
  have hne : tokens ≠ [] := by
    obtain ⟨first, rest, rfl⟩ := hderives.exists_cons
    exact List.cons_ne_nil _ _
  rw [SpellsMap, if_neg hne]
  exact hderives.spellsEntries

mutual

theorem Expr.Derives.spellsMaps {tokens : List Token} {expr : Expr} :
    Expr.Derives tokens expr → List.Forall₂ SpellsMap (blocks tokens) expr.maps
  | .step hsteps => by
      have hmaps := hsteps.spellsMaps
      rwa [Expr.stepsMaps, Expr.stepsMaps, List.append_nil] at hmaps
  | .flow hsteps => hsteps.spellsMaps

theorem Expr.DerivesSteps.spellsMaps {tokens : List Token} {steps : List Expr} :
    Expr.DerivesSteps tokens steps →
      List.Forall₂ SpellsMap (blocks tokens) (Expr.stepsMaps steps)
  | .nil => .nil
  | .cons arrows hstep hrest => by
      have hbalanced := (hstep.undivided (.inl rfl)).balanced
      rw [blocks_arrows_append, hbalanced.blocks_append]
      exact List.rel_append hstep.spellsMaps hrest.spellsMaps

theorem Expr.DerivesStep.spellsMaps {tokens : List Token} {step : Expr} :
    Expr.DerivesStep tokens step → List.Forall₂ SpellsMap (blocks tokens) step.maps
  | .atom value => by
      rw [blocks_atom]
      exact .nil
  | .config name hsettings => by
      rw [blocks_config name hsettings]
      exact .nil
  | .map hmap => hmap.spellsMaps

theorem Expr.DerivesMap.spellsMaps {tokens : List Token} {entries : List (Pattern × Expr)} :
    Expr.DerivesMap tokens entries →
      List.Forall₂ SpellsMap (blocks tokens) (entries :: Expr.entriesMaps entries)
  | .empty => by
      rw [← List.nil_append [Token.mark .closeBrace], Balanced.nil.blocks_braces]
      exact .cons spellsMap_nil .nil
  | .entries hentries => by
      rw [hentries.balanced.blocks_braces]
      exact .cons hentries.spellsMap hentries.spellsMaps

theorem Expr.DerivesEntries.spellsMaps {tokens : List Token}
    {entries : List (Pattern × Expr)} :
    Expr.DerivesEntries tokens entries →
      List.Forall₂ SpellsMap (blocks tokens) (Expr.entriesMaps entries)
  | .one hkey hvalue => by
      rw [hkey.blocks_append, blocks_cons (by simp), Expr.entriesMaps, Expr.entriesMaps,
        List.append_nil]
      exact hvalue.spellsMaps
  | .cons hkey hvalue hrest => by
      rw [hkey.blocks_append, blocks_cons (by simp), hvalue.balanced.blocks_append,
        blocks_cons (by simp)]
      exact List.rel_append hvalue.spellsMaps hrest.spellsMaps

end

/-! ## Statements and programs -/

theorem Signature.Derives.balanced {tokens : List Token} {signature : Signature}
    (hderives : Signature.Derives tokens signature) : Balanced tokens := by
  cases hderives <;> rfl

theorem Signature.Derives.blocks_append {tokens : List Token} {signature : Signature}
    (hderives : Signature.Derives tokens signature) (rest : List Token) :
    blocks (tokens ++ rest) = blocks rest := by
  cases hderives <;> rfl

theorem Assignment.Derives.balanced {tokens : List Token} {assignment : Assignment}
    (hderives : Assignment.Derives tokens assignment) : Balanced tokens := by
  cases hderives with
  | untyped name hvalue => exact .cons rfl (.cons rfl hvalue.balanced)
  | typed name htype hvalue =>
      exact .cons rfl (.cons rfl (htype.balanced.append (.cons rfl hvalue.balanced)))

theorem Assignment.Derives.spellsMaps {tokens : List Token} {assignment : Assignment}
    (hderives : Assignment.Derives tokens assignment) :
    List.Forall₂ SpellsMap (blocks tokens) assignment.value.maps := by
  cases hderives with
  | untyped name hvalue => exact hvalue.spellsMaps
  | typed name htype hvalue =>
      rw [blocks_cons (by simp), blocks_cons (by simp), htype.blocks_append,
        blocks_cons (by simp)]
      exact hvalue.spellsMaps

theorem Statement.Derives.balanced {tokens : List Token} {statement : Statement}
    (hderives : Statement.Derives tokens statement) : Balanced tokens := by
  cases hderives with
  | empty => exact .nil
  | importName name htype => exact .cons rfl (.cons rfl (.cons rfl htype.balanced))
  | exportFlow hassignment => exact .cons rfl hassignment.balanced
  | assign hassignment => exact hassignment.balanced

theorem Statement.Derives.spellsMaps {tokens : List Token} {statement : Statement}
    (hderives : Statement.Derives tokens statement) :
    List.Forall₂ SpellsMap (blocks tokens) statement.maps := by
  cases hderives with
  | empty => exact .nil
  | importName name htype => cases htype <;> exact .nil
  | exportFlow hassignment =>
      rw [blocks_cons (by simp)]
      exact hassignment.spellsMaps
  | assign hassignment => exact hassignment.spellsMaps

theorem Statement.Derives.bracketed {tokens : List Token} {statement : Statement}
    (hderives : Statement.Derives tokens statement) : Bracketed tokens statement := by
  refine ⟨hderives.balanced, fun before rest heq => ?_, hderives.spellsMaps⟩
  have hbalanced := hderives.balanced
  rw [heq] at hbalanced
  exact hbalanced.exists_close

/-- Brackets match in every statement that is read, and its maps are what its braces
enclose, with one entry for every segment between commas. -/
theorem Program.ofTokens_bracketed {limit : Nat} {tokens : List Token} {program : Program}
    (hread : Program.ofTokens limit tokens = .ok program) :
    List.Forall₂ Bracketed (Program.runs tokens) program := by
  have hderives := (Program.ofTokens_eq_ok_iff_derives.mp hread).1
  clear hread
  induction hderives with
  | nil => exact .nil
  | cons hrun hrest ih =>
      rw [Program.runs_append hrun.isRun]
      exact .cons hrun.bracketed ih

/-- Commas in a pattern and in settings do not divide a map, and an inner map is the
second one to open. -/
theorem Program.ofTokens_bracketed_commas :
    ∃ statement,
      Program.ofTokens 9
          (tokenize "x = \x7b a ( b , 2 ) : f ( k = 1 , l = 2 ) , 3 : \x7b \x7d \x7d ;") =
        .ok [statement] ∧
      List.Forall₂ Bracketed
        (runs (tokenize "x = \x7b a ( b , 2 ) : f ( k = 1 , l = 2 ) , 3 : \x7b \x7d \x7d ;"))
        [statement] ∧
      statement.maps.map List.length = [2, 0] ∧
      blocks (tokenize "x = \x7b a ( b , 2 ) : f ( k = 1 , l = 2 ) , 3 : \x7b \x7d \x7d ;") =
        [tokenize "a ( b , 2 ) : f ( k = 1 , l = 2 ) , 3 : \x7b \x7d", []] ∧
      segments (tokenize "a ( b , 2 ) : f ( k = 1 , l = 2 ) , 3 : \x7b \x7d") =
        [tokenize "a ( b , 2 ) : f ( k = 1 , l = 2 )", tokenize "3 : \x7b \x7d"] := by
  have hread : Program.ofTokens 9
      (tokenize "x = \x7b a ( b , 2 ) : f ( k = 1 , l = 2 ) , 3 : \x7b \x7d \x7d ;") =
    .ok [.assign ⟨"x", none, .map
      [(.constructor "a" [.atom (.identifier "b"), .atom (.literal "2")],
          .config "f" (.ofList [("k", .literal "1"), ("l", .literal "2")])),
        (.atom (.literal "3"), .map [])]⟩] := by decide +kernel
  exact ⟨_, hread, ofTokens_bracketed hread, rfl, by decide +kernel, by decide +kernel⟩

end Dataflow
