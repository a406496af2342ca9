import Dataflow.Proofs.Cursor.Methods

/-!
# Keys are read locally

The method for keys sees the tokens through the cursor of its statement and sees nothing
else: neither the tokens behind the end of the statement nor the calls that were made before
have a say in how it ends.  What is known of statements that a semicolon ends is therefore
known of any other part of the tokens as well.
-/

namespace Dataflow

/-- Two states with the cursor at the same place of a statement that ends at `stop`. -/
structure Scanner.Twins (stop : Nat) (left right : Scanner) : Prop where
  cursor_eq : left.cursor = right.cursor
  stop_eq : left.cursor.stop = stop

theorem Scanner.Twins.left_eq {stop : Nat} {left right : Scanner}
    (htwins : left.Twins stop right) : left.left = right.left := by
  rw [Scanner.left, Scanner.left, htwins.cursor_eq]

namespace Scan

/-- From twin states both scans end with one outcome, in twin states again, or neither of
them ends. -/
def Agree {ε α : Type} (stop : Nat) (scan other : Scan ε α) : Prop :=
  ∀ left right : Scanner, left.Twins stop right →
    Option.Rel (fun ended ended' => ended.1 = ended'.1 ∧ ended.2.Twins stop ended'.2)
      (scan left) (other right)

section Rules

variable {ε α β σ : Type} {stop : Nat} {scan other : Scan ε α}

/-- What one of two scans ends with, the other ends with as well. -/
theorem Agree.exists_eq {left right after : Scanner} {outcome : Except ε α}
    (hagree : Agree stop scan other) (htwins : left.Twins stop right)
    (hscan : scan left = some (outcome, after)) :
    ∃ after', other right = some (outcome, after') ∧ after'.cursor = after.cursor := by
  have hended := hagree left right htwins
  rw [hscan] at hended
  generalize other right = ended' at hended ⊢
  cases hended with
  | @some _ second hboth =>
      obtain ⟨outcome', after'⟩ := second
      obtain ⟨houtcome, hafter⟩ := hboth
      obtain rfl : outcome = outcome' := houtcome
      exact ⟨after', rfl, hafter.cursor_eq.symm⟩

theorem Agree.pure (value : α) : Agree stop (pure value : Scan ε α) (pure value) :=
  fun _ _ htwins => .some ⟨rfl, htwins⟩

theorem Agree.throw (error : ε) : Agree stop (throw error : Scan ε α) (throw error) :=
  fun _ _ htwins => .some ⟨rfl, htwins⟩

theorem Agree.bind {next next' : α → Scan ε β} (hscan : Agree stop scan other)
    (hnext : ∀ value, Agree stop (next value) (next' value)) :
    Agree stop (scan >>= next) (other >>= next') := by
  intro left right htwins
  have hended := hscan left right htwins
  change Option.Rel _ ((scan left).bind _) ((other right).bind _)
  generalize scan left = ended, other right = ended' at hended ⊢
  cases hended with
  | none => exact .none
  | @some first second hfirst =>
      obtain ⟨outcome, after⟩ := first
      obtain ⟨outcome', after'⟩ := second
      obtain ⟨houtcome, hafter⟩ := hfirst
      obtain rfl : outcome = outcome' := houtcome
      cases outcome with
      | error error => exact .some ⟨rfl, hafter⟩
      | ok value => exact hnext value after after' hafter

/-- The loops have the same count of what is left, so they go on together. -/
theorem Agree.loop {round round' : σ → Scan ε (Round σ β)}
    (hround : ∀ state, Agree stop (round state) (round' state)) (state : σ) :
    Agree stop (loop Scanner.left round state) (loop Scanner.left round' state) := by
  intro left right htwins
  induction hcount : left.left using Nat.strongRecOn generalizing left right state with
  | ind count ih =>
  rw [loop_eq, loop_eq]
  refine (hround state).bind (fun ended => ?_) left right htwins
  intro after after' hafter
  cases ended with
  | done result => exact Agree.pure result after after' hafter
  | again later =>
      by_cases hlt : after.left < left.left
      · have hlt' : after'.left < right.left := by rwa [← hafter.left_eq, ← htwins.left_eq]
        rw [afterRound_again hlt, afterRound_again hlt']
        exact ih after.left (hcount ▸ hlt) later after after' hafter rfl
      · have hlt' : ¬ after'.left < right.left := by rwa [← hafter.left_eq, ← htwins.left_eq]
        simp only [afterRound, if_neg hlt, if_neg hlt']
        exact .none

theorem Agree.record (hscan : Agree stop scan other) (method : Method) (depth : Option Nat)
    (answer : α → Answer) :
    Agree stop (record method depth answer scan) (record method depth answer other) := by
  intro left right htwins
  have hended := hscan left right htwins
  change Option.Rel _ ((scan left).bind _) ((other right).bind _)
  generalize scan left = ended, other right = ended' at hended ⊢
  cases hended with
  | none => exact .none
  | some hboth => exact .some ⟨hboth.1, hboth.2.cursor_eq, hboth.2.stop_eq⟩

end Rules

theorem agree_advance {stop : Nat} : Agree stop advance advance := by
  refine Agree.record ?_ _ _ _
  intro left right htwins
  exact .some ⟨rfl, congrArg Cursor.advance htwins.cursor_eq, htwins.stop_eq⟩

/-! ## The same tokens up to the end of the statement -/

section Tokens

variable {stop : Nat} {tokens others : List Token}

theorem agree_peek? (htake : tokens.take stop = others.take stop) (ahead : Nat) :
    Agree stop (peek? tokens ahead) (peek? others ahead) := by
  intro left right htwins
  have hpeek : left.cursor.peek? tokens ahead = right.cursor.peek? others ahead := by
    rw [← htwins.cursor_eq, Cursor.peek?_eq_getElem?, Cursor.peek?_eq_getElem?, Cursor.rest,
      Cursor.rest, htwins.stop_eq, htake]
  exact .some ⟨congrArg Except.ok hpeek, htwins⟩

theorem agree_nextIs (htake : tokens.take stop = others.take stop) (role : Token.Role) :
    Agree stop (nextIs tokens role) (nextIs others role) :=
  (agree_peek? htake 0).bind fun _ => .pure _

theorem agree_expectToken (htake : tokens.take stop = others.take stop) :
    Agree stop (expectToken tokens) (expectToken others) := by
  refine (agree_peek? htake 0).bind fun found => ?_
  cases found with
  | none => exact .throw _
  | some token => exact .pure token

theorem agree_between {α : Type} {items items' : Scan Fault α}
    (htake : tokens.take stop = others.take stop) (hitems : Agree stop items items')
    (close : Token.Role) (nothing : α) :
    Agree stop (between tokens close nothing items) (between others close nothing items') := by
  refine (agree_nextIs htake close).bind fun closed => ?_
  cases closed with
  | false => exact hitems
  | true => exact agree_advance.bind fun _ => .pure nothing

theorem agree_argRound {arg arg' : Scan Fault Pattern}
    (htake : tokens.take stop = others.take stop) (harg : Agree stop arg arg')
    (args : List Pattern) :
    Agree stop (argRound tokens arg args) (argRound others arg' args) := by
  refine harg.bind fun pattern => (agree_expectToken htake).bind fun separator => ?_
  split
  · exact agree_advance.bind fun _ => .pure _
  · exact agree_advance.bind fun _ => .pure _
  · exact .throw _

theorem agree_keyWith {arg arg' : Scan Fault Pattern}
    (htake : tokens.take stop = others.take stop) (harg : Agree stop arg arg') :
    Agree stop (keyWith tokens arg) (keyWith others arg') := by
  refine (agree_expectToken htake).bind fun first => ?_
  split
  · exact .throw _
  · exact agree_advance.bind fun _ => .pure _
  · refine agree_advance.bind fun _ => (agree_nextIs htake .openParen).bind fun opened => ?_
    cases opened with
    | false => exact .pure _
    | true =>
        have hargs := agree_between htake (Agree.loop (agree_argRound htake harg) [])
          .closeParen []
        exact agree_advance.bind fun _ => hargs.bind fun _ => .pure _

/-- What lies behind the end of its statement does not matter to the method for keys. -/
theorem agree_key (htake : tokens.take stop = others.take stop) (limit depth : Nat) :
    Agree stop (key tokens limit depth) (key others limit depth) := by
  rw [key.eq_def tokens limit depth, key.eq_def others limit depth]
  refine Agree.record ?_ _ _ _
  by_cases hdepth : depth < limit
  · rw [dif_pos hdepth, dif_pos hdepth]
    exact agree_keyWith htake (agree_key htake limit (depth + 1))
  · rw [dif_neg hdepth, dif_neg hdepth]
    exact (agree_peek? htake 0).bind fun _ => .throw _
termination_by limit - depth

end Tokens

end Scan

end Dataflow
