import Dataflow.Proofs.Mark

/-!
# Brackets

Braces and parentheses are balanced when every closing bracket has the shape of the
last opening bracket that is not closed yet, and none stays open.  The depth of a
token is the number of brackets that are open before it.  A balanced part of a token
list changes neither the depth of what follows nor which bracket closes which, and
no comma or colon within its brackets has the depth of the part itself.
-/

namespace Dataflow

/-- What a token does to the brackets that are open. -/
inductive Token.Bracket where
  /-- Opens a bracket, which a token with the role `close` has to close. -/
  | opening (close : Token.Role)
  | closing
  | plain
  deriving DecidableEq

def Token.bracket (token : Token) : Token.Bracket :=
  match token.role with
  | .openBrace => .opening .closeBrace
  | .openParen => .opening .closeParen
  | .closeBrace | .closeParen => .closing
  | _ => .plain

/-- The closing brackets that are due after some tokens, the next one first, given
those that are due before.  Nothing, when a closing bracket is not the one that is
due. -/
def dueAfter (due : List Token.Role) : List Token → Option (List Token.Role)
  | [] => some due
  | token :: rest =>
    match token.bracket with
    | .opening close => dueAfter (close :: due) rest
    | .closing => if due.head? = some token.role then dueAfter due.tail rest else none
    | .plain => dueAfter due rest

/-- Every closing bracket matches the last open bracket, and none stays open. -/
def Balanced (tokens : List Token) : Prop :=
  dueAfter [] tokens = some []

/-- Each token with its depth, when `depth` brackets are open before the first. -/
def withDepths (depth : Nat) : List Token → List (Token × Nat)
  | [] => []
  | token :: rest =>
    (token, depth) ::
      match token.bracket with
      | .opening _ => withDepths (depth + 1) rest
      | .closing => withDepths (depth - 1) rest
      | .plain => withDepths depth rest

/-- The tokens before the first closing bracket that closes none of them. -/
def untilClose (tokens : List Token) : List Token :=
  ((withDepths 0 tokens).takeWhile fun item => ¬ (item.1.bracket = .closing ∧ item.2 = 0)).map
    Prod.fst

/-- What stands between every opening brace and its closing brace, in the order of the
opening braces. -/
def blocks : List Token → List (List Token)
  | [] => []
  | token :: rest =>
    if token = .mark .openBrace then untilClose rest :: blocks rest else blocks rest

/-- The tokens cut at their commas of depth zero. -/
def segments (tokens : List Token) : List (List Token) :=
  ((withDepths 0 tokens).splitOn (.mark .comma, 0)).map (List.map Prod.fst)

/-- The tokens before their first colon of depth zero. -/
def beforeColon (tokens : List Token) : List Token :=
  ((withDepths 0 tokens).takeWhile (· ≠ (.mark .colon, 0))).map Prod.fst

theorem map_fst_withDepths (depth : Nat) (tokens : List Token) :
    (withDepths depth tokens).map Prod.fst = tokens := by
  induction tokens generalizing depth with
  | nil => rfl
  | cons token rest ih =>
      rw [withDepths, List.map_cons]
      split <;> rw [ih]

/-! ## Brackets that are due -/

theorem dueAfter_opening {token : Token} {close : Token.Role}
    (htoken : token.bracket = .opening close) (due : List Token.Role) (rest : List Token) :
    dueAfter due (token :: rest) = dueAfter (close :: due) rest := by
  rw [dueAfter, htoken]

theorem dueAfter_closing {token : Token} (htoken : token.bracket = .closing)
    (due : List Token.Role) (rest : List Token) :
    dueAfter (token.role :: due) (token :: rest) = dueAfter due rest := by
  rw [dueAfter, htoken]
  exact if_pos rfl

theorem dueAfter_plain {token : Token} (htoken : token.bracket = .plain)
    (due : List Token.Role) (rest : List Token) :
    dueAfter due (token :: rest) = dueAfter due rest := by
  rw [dueAfter, htoken]

/-- A closing bracket that is accepted was due. -/
theorem exists_due_of_closing {token : Token} (htoken : token.bracket = .closing)
    {due due' : List Token.Role} {rest : List Token}
    (hdue : dueAfter due (token :: rest) = some due') :
    ∃ others, due = token.role :: others ∧ dueAfter others rest = some due' := by
  rw [dueAfter, htoken] at hdue
  simp only at hdue
  split at hdue
  · next hhead =>
    obtain ⟨others, rfl⟩ := List.head?_eq_some_iff.mp hhead
    exact ⟨others, rfl, hdue⟩
  · contradiction

/-- Tokens that are accepted go on from what is due after each of them. -/
@[elab_as_elim]
theorem inductionOnDue
    {motive : ∀ due tokens due', dueAfter due tokens = some due' → Prop}
    (nil : ∀ due, motive due [] due rfl)
    (opening : ∀ token close due rest due' (htoken : token.bracket = .opening close)
      (hrest : dueAfter (close :: due) rest = some due'), motive (close :: due) rest due' hrest →
        motive due (token :: rest) due' ((dueAfter_opening htoken due rest).trans hrest))
    (closing : ∀ token due rest due' (htoken : token.bracket = .closing)
      (hrest : dueAfter due rest = some due'), motive due rest due' hrest →
        motive (token.role :: due) (token :: rest) due'
          ((dueAfter_closing htoken due rest).trans hrest))
    (plain : ∀ token due rest due' (htoken : token.bracket = .plain)
      (hrest : dueAfter due rest = some due'), motive due rest due' hrest →
        motive due (token :: rest) due' ((dueAfter_plain htoken due rest).trans hrest))
    {due : List Token.Role} {tokens : List Token} {due' : List Token.Role}
    (htokens : dueAfter due tokens = some due') : motive due tokens due' htokens := by
  induction tokens generalizing due with
  | nil =>
      obtain rfl := Option.some.inj htokens
      exact nil due
  | cons token rest ih =>
      cases htoken : token.bracket with
      | opening close =>
          have hrest := (dueAfter_opening htoken due rest).symm.trans htokens
          exact opening token close due rest due' htoken hrest (ih hrest)
      | closing =>
          obtain ⟨others, rfl, hrest⟩ := exists_due_of_closing htoken htokens
          exact closing token others rest due' htoken hrest (ih hrest)
      | plain =>
          have hrest := (dueAfter_plain htoken due rest).symm.trans htokens
          exact plain token due rest due' htoken hrest (ih hrest)

theorem dueAfter_append (due : List Token.Role) (front rest : List Token) :
    dueAfter due (front ++ rest) = (dueAfter due front).bind fun next => dueAfter next rest := by
  induction front generalizing due with
  | nil => rfl
  | cons token front ih =>
      rw [List.cons_append, dueAfter, dueAfter]
      split
      · exact ih _
      · split
        · exact ih _
        · rfl
      · exact ih _

/-- Brackets that are due besides those that count stay due. -/
theorem dueAfter_frame {tokens : List Token} {due due' : List Token.Role}
    (htokens : dueAfter due tokens = some due') (base : List Token.Role) :
    dueAfter (due ++ base) tokens = some (due' ++ base) := by
  induction htokens using inductionOnDue with
  | nil due => rfl
  | opening token close due tokens due' htoken hrest ih => rwa [dueAfter_opening htoken]
  | closing token due tokens due' htoken hrest ih => rwa [List.cons_append, dueAfter_closing htoken]
  | plain token due tokens due' htoken hrest ih => rwa [dueAfter_plain htoken]

/-- The depth after some tokens is the number of brackets that are due there. -/
theorem withDepths_append_of_due {front : List Token} {due due' : List Token.Role}
    (hfront : dueAfter due front = some due') (base : Nat) (rest : List Token) :
    withDepths (base + due.length) (front ++ rest) =
      withDepths (base + due.length) front ++ withDepths (base + due'.length) rest := by
  induction hfront using inductionOnDue with
  | nil due => rfl
  | opening token close due front due' htoken hrest ih =>
      simp only [List.cons_append, withDepths, htoken]
      exact congrArg _ ih
  | closing token due front due' htoken hrest ih =>
      simp only [List.cons_append, withDepths, htoken, List.length_cons, ← Nat.add_assoc,
        Nat.add_sub_cancel]
      exact congrArg _ ih
  | plain token due front due' htoken hrest ih =>
      simp only [List.cons_append, withDepths, htoken]
      exact congrArg _ ih

/-- Above `base` brackets that stay open no token has a smaller depth, and a closing
bracket has a larger one. -/
theorem le_of_mem_withDepths {tokens : List Token} {due due' : List Token.Role}
    (htokens : dueAfter due tokens = some due') (base : Nat) :
    ∀ item ∈ withDepths (base + due.length) tokens,
      base ≤ item.2 ∧ (item.1.bracket = .closing → base < item.2) := by
  induction htokens using inductionOnDue with
  | nil due => nofun
  | opening token close due tokens due' htoken hrest ih =>
      simp only [withDepths, htoken, List.forall_mem_cons]
      exact ⟨⟨Nat.le_add_right base _, nofun⟩, ih⟩
  | closing token due tokens due' htoken hrest ih =>
      simp only [withDepths, htoken, List.forall_mem_cons, List.length_cons, ← Nat.add_assoc,
        Nat.add_sub_cancel]
      exact ⟨⟨by omega, by omega⟩, ih⟩
  | plain token due tokens due' htoken hrest ih =>
      simp only [withDepths, htoken, List.forall_mem_cons]
      exact ⟨⟨Nat.le_add_right base _, nofun⟩, ih⟩

/-- The brackets that are due are closed in their order: what stands before the closing
bracket for one of them closes those before it. -/
theorem exists_close_of_due {front due : List Token.Role} {close : Token.Role}
    {tokens : List Token} (htokens : dueAfter (front ++ close :: due) tokens = some []) :
    ∃ inner token rest, tokens = inner ++ token :: rest ∧ token.role = close ∧
      dueAfter front inner = some [] := by
  induction tokens generalizing front with
  | nil => simp [dueAfter] at htokens
  | cons token tokens ih =>
      cases htoken : token.bracket with
      | opening next =>
          rw [dueAfter_opening htoken, ← List.cons_append] at htokens
          obtain ⟨inner, last, rest, rfl, hclose, hinner⟩ := ih htokens
          exact ⟨token :: inner, last, rest, rfl, hclose,
            (dueAfter_opening htoken front inner).trans hinner⟩
      | closing =>
          obtain ⟨others, heq, hothers⟩ := exists_due_of_closing htoken htokens
          cases front with
          | nil => exact ⟨[], token, tokens, rfl, (List.cons.inj heq).1.symm, rfl⟩
          | cons first front =>
              obtain ⟨rfl, rfl⟩ := List.cons.inj heq
              obtain ⟨inner, last, rest, rfl, hclose, hinner⟩ := ih hothers
              exact ⟨token :: inner, last, rest, rfl, hclose,
                (dueAfter_closing htoken front inner).trans hinner⟩
      | plain =>
          rw [dueAfter_plain htoken] at htokens
          obtain ⟨inner, last, rest, rfl, hclose, hinner⟩ := ih htokens
          exact ⟨token :: inner, last, rest, rfl, hclose,
            (dueAfter_plain htoken front inner).trans hinner⟩

/-! ## Balanced tokens -/

namespace Balanced

variable {front inner rest : List Token}

theorem dueAfter_append (hfront : Balanced front) (due : List Token.Role) (rest : List Token) :
    dueAfter due (front ++ rest) = dueAfter due rest := by
  have hframe := dueAfter_frame hfront due
  rw [List.nil_append] at hframe
  rw [Dataflow.dueAfter_append, hframe, Option.bind_some]

theorem nil : Balanced [] := rfl

theorem append (hfront : Balanced front) (hrest : Balanced rest) : Balanced (front ++ rest) :=
  (hfront.dueAfter_append [] rest).trans hrest

theorem cons {token : Token} (htoken : token.bracket = .plain) (hrest : Balanced rest) :
    Balanced (token :: rest) :=
  (dueAfter_plain htoken [] rest).trans hrest

theorem enclose {opener closer : Token} (hopener : opener.bracket = .opening closer.role)
    (hcloser : closer.bracket = .closing) (hinner : Balanced inner) :
    Balanced (opener :: (inner ++ [closer])) := by
  rw [Balanced, dueAfter_opening hopener, hinner.dueAfter_append, dueAfter_closing hcloser]
  rfl

theorem withDepths_append (hfront : Balanced front) (depth : Nat) (rest : List Token) :
    withDepths depth (front ++ rest) = withDepths depth front ++ withDepths depth rest :=
  withDepths_append_of_due hfront depth rest

theorem le_of_mem (hinner : Balanced inner) (depth : Nat) :
    ∀ item ∈ withDepths depth inner,
      depth ≤ item.2 ∧ (item.1.bracket = .closing → depth < item.2) :=
  le_of_mem_withDepths hinner depth

theorem untilClose_append (hinner : Balanced inner) {closer : Token}
    (hcloser : closer.bracket = .closing) (rest : List Token) :
    untilClose (inner ++ closer :: rest) = inner := by
  have hpass : ∀ item ∈ withDepths 0 inner,
      decide (¬ (item.1.bracket = .closing ∧ item.2 = 0)) = true := by
    intro item hitem
    rw [decide_eq_true_iff]
    rintro ⟨hclosing, hzero⟩
    exact Nat.not_lt_zero 0 (hzero ▸ (hinner.le_of_mem 0 item hitem).2 hclosing)
  rw [untilClose, hinner.withDepths_append, List.takeWhile_append_of_pos hpass, withDepths,
    List.takeWhile_cons_of_neg (by simp [hcloser]), List.append_nil, map_fst_withDepths]

end Balanced

/-- A brace that is due is closed, and what stands before it is balanced. -/
theorem exists_untilClose {due : List Token.Role} {tokens : List Token}
    (htokens : dueAfter (.closeBrace :: due) tokens = some []) :
    ∃ rest, tokens = untilClose tokens ++ .mark .closeBrace :: rest ∧
      Balanced (untilClose tokens) := by
  obtain ⟨inner, token, rest, rfl, hclose, hinner⟩ := @exists_close_of_due [] due _ tokens htokens
  obtain rfl := Token.role_eq_iff (m := .closeBrace).mp hclose
  rw [Balanced.untilClose_append hinner rfl]
  exact ⟨rest, rfl, hinner⟩

/-- Every opening brace of balanced tokens has a closing one behind balanced tokens. -/
theorem Balanced.exists_close {before rest : List Token}
    (hbalanced : Balanced (before ++ .mark .openBrace :: rest)) :
    ∃ after, rest = untilClose rest ++ .mark .closeBrace :: after ∧
      Balanced (untilClose rest) := by
  rw [Balanced, Dataflow.dueAfter_append, Option.bind_eq_some_iff] at hbalanced
  obtain ⟨due, -, hdue⟩ := hbalanced
  rw [dueAfter_opening rfl] at hdue
  exact exists_untilClose hdue

theorem blocks_append_of_due {front : List Token} {due : List Token.Role}
    (hfront : dueAfter due front = some []) (rest : List Token) :
    blocks (front ++ rest) = blocks front ++ blocks rest := by
  induction front generalizing due with
  | nil => rfl
  | cons token front ih =>
      by_cases hbrace : token = .mark .openBrace
      · subst hbrace
        rw [dueAfter_opening rfl] at hfront
        obtain ⟨after, hclose, hinner⟩ := exists_untilClose hfront
        have huntil : untilClose (front ++ rest) = untilClose front := by
          rw [hclose, List.append_assoc, List.cons_append, hinner.untilClose_append rfl,
            hinner.untilClose_append rfl]
        rw [List.cons_append, blocks, blocks, if_pos rfl, if_pos rfl, ih hfront, huntil,
          List.cons_append]
      · rw [List.cons_append, blocks, blocks, if_neg hbrace, if_neg hbrace]
        cases htoken : token.bracket with
        | opening close => exact ih ((dueAfter_opening htoken due front).symm.trans hfront)
        | closing =>
            obtain ⟨others, -, hothers⟩ := exists_due_of_closing htoken hfront
            exact ih hothers
        | plain => exact ih ((dueAfter_plain htoken due front).symm.trans hfront)

theorem Balanced.blocks_append {front : List Token} (hfront : Balanced front)
    (rest : List Token) : blocks (front ++ rest) = blocks front ++ blocks rest :=
  blocks_append_of_due hfront rest

theorem blocks_cons {token : Token} (htoken : token ≠ .mark .openBrace) (rest : List Token) :
    blocks (token :: rest) = blocks rest :=
  if_neg htoken

theorem blocks_eq_nil {tokens : List Token} (htokens : .mark .openBrace ∉ tokens) :
    blocks tokens = [] := by
  induction tokens with
  | nil => rfl
  | cons token rest ih =>
      rw [List.mem_cons, not_or] at htokens
      rw [blocks_cons (Ne.symm htokens.1), ih htokens.2]

/-- A block and the blocks within it. -/
theorem Balanced.blocks_braces {inner : List Token} (hinner : Balanced inner) :
    blocks (.mark .openBrace :: (inner ++ [.mark .closeBrace])) = inner :: blocks inner := by
  rw [blocks, if_pos rfl, hinner.untilClose_append rfl, hinner.blocks_append,
    blocks_cons (by simp)]
  exact congrArg _ (List.append_nil _)

/-! ## Tokens without a mark outside of their brackets -/

/-- The brackets are balanced, and the mark only stands within some. -/
structure Undivided (m : Token.Mark) (tokens : List Token) : Prop where
  balanced : Balanced tokens
  not_mem : (.mark m, 0) ∉ withDepths 0 tokens

namespace Undivided

variable {m : Token.Mark} {front inner rest : List Token}

theorem nil (m : Token.Mark) : Undivided m [] := ⟨.nil, List.not_mem_nil⟩

theorem append (hfront : Undivided m front) (hrest : Undivided m rest) :
    Undivided m (front ++ rest) := by
  refine ⟨hfront.balanced.append hrest.balanced, ?_⟩
  rw [hfront.balanced.withDepths_append, List.mem_append, not_or]
  exact ⟨hfront.not_mem, hrest.not_mem⟩

theorem cons {token : Token} (htoken : token.bracket = .plain) (hne : token ≠ .mark m)
    (hrest : Undivided m rest) : Undivided m (token :: rest) := by
  refine ⟨.cons htoken hrest.balanced, ?_⟩
  simp only [withDepths, htoken, List.mem_cons, Prod.mk.injEq, not_or]
  exact ⟨fun heq => hne heq.1.symm, hrest.not_mem⟩

/-- Brackets hide all that is between them. -/
theorem enclose (hm : (Token.mark m).bracket = .plain) {opener closer : Token}
    (hopener : opener.bracket = .opening closer.role) (hcloser : closer.bracket = .closing)
    (hinner : Balanced inner) : Undivided m (opener :: (inner ++ [closer])) := by
  refine ⟨hinner.enclose hopener hcloser, fun hmem => ?_⟩
  simp only [withDepths, hopener, hcloser, hinner.withDepths_append, List.mem_cons,
    List.mem_append, Prod.mk.injEq, List.not_mem_nil, or_false] at hmem
  rcases hmem with ⟨rfl, -⟩ | hmem | ⟨-, hzero⟩
  · rw [hopener] at hm
    contradiction
  · exact Nat.not_succ_le_zero 0 (hinner.le_of_mem 1 _ hmem).1
  · contradiction

theorem segments_eq (hfront : Undivided .comma front) : segments front = [front] := by
  rw [segments, List.splitOn_eq_singleton hfront.not_mem, List.map_singleton,
    map_fst_withDepths]

theorem segments_append (hfront : Undivided .comma front) (rest : List Token) :
    segments (front ++ .mark .comma :: rest) = front :: segments rest := by
  have hcomma : withDepths 0 (.mark .comma :: rest) = (.mark .comma, 0) :: withDepths 0 rest :=
    rfl
  rw [segments, hfront.balanced.withDepths_append, hcomma,
    List.splitOn_append_cons_self_of_not_mem hfront.not_mem, List.map_cons, map_fst_withDepths,
    segments]

theorem beforeColon_append (hfront : Undivided .colon front) (rest : List Token) :
    beforeColon (front ++ .mark .colon :: rest) = front := by
  have hcolon : withDepths 0 (.mark .colon :: rest) = (.mark .colon, 0) :: withDepths 0 rest :=
    rfl
  have hpass : ∀ item ∈ withDepths 0 front, decide (item ≠ (.mark .colon, 0)) = true := by
    intro item hitem
    exact decide_eq_true fun heq => hfront.not_mem (heq ▸ hitem)
  rw [beforeColon, hfront.balanced.withDepths_append, hcolon,
    List.takeWhile_append_of_pos hpass, List.takeWhile_cons_of_neg (by simp), List.append_nil,
    map_fst_withDepths]

end Undivided

end Dataflow
