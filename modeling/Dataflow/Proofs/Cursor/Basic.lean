import Dataflow.Token.Basic

/-!
# Cursors

A cursor says how far a statement has been read without taking its tokens apart: the
statement reaches from one position in the whole token list to another, where its
semicolon stands, and the cursor is at a third one, which moves.  What it still has
before it are the tokens that a reader of lists would be given.
-/

namespace Dataflow

/-- The statement from `start` up to `stop`, with `current` the next token to read. -/
structure Cursor where
  start : Nat
  current : Nat
  stop : Nat
  deriving DecidableEq, Inhabited

namespace Cursor

/-- The token so many places ahead, unless the statement ends before it. -/
def peek? (cursor : Cursor) (tokens : List Token) (ahead : Nat) : Option Token :=
  if cursor.current + ahead < cursor.stop then tokens[cursor.current + ahead]? else none

/-- The last token of the statement. -/
def last? (cursor : Cursor) (tokens : List Token) : Option Token :=
  if cursor.start < cursor.stop then tokens[cursor.stop - 1]? else none

/-- The next position, but never one past the end of the statement. -/
def advance (cursor : Cursor) : Cursor :=
  { cursor with current := min (cursor.current + 1) cursor.stop }

/-- The tokens of the statement. -/
def window (cursor : Cursor) (tokens : List Token) : List Token :=
  (tokens.take cursor.stop).drop cursor.start

/-- The tokens of the statement that are not read yet. -/
def rest (cursor : Cursor) (tokens : List Token) : List Token :=
  (tokens.take cursor.stop).drop cursor.current

/-- The cursor is in a part of the tokens, which need not be followed by a semicolon. -/
structure Inside (cursor : Cursor) (tokens : List Token) : Prop where
  start_le : cursor.start ≤ cursor.current
  le_stop : cursor.current ≤ cursor.stop
  stop_le : cursor.stop ≤ tokens.length

/-- The cursor is in its statement, and a semicolon ends the statement. -/
structure Within (cursor : Cursor) (tokens : List Token) : Prop where
  start_le : cursor.start ≤ cursor.current
  le_stop : cursor.current ≤ cursor.stop
  semicolon : tokens[cursor.stop]?.map Token.role = some .semicolon

/-- The same statement, and no position before the one where the cursor was. -/
structure Moves (before after : Cursor) : Prop where
  start_eq : after.start = before.start
  stop_eq : after.stop = before.stop
  le : before.current ≤ after.current

theorem Moves.refl (cursor : Cursor) : cursor.Moves cursor := ⟨rfl, rfl, Nat.le_refl _⟩

theorem Moves.trans {first second third : Cursor} (hfirst : first.Moves second)
    (hsecond : second.Moves third) : first.Moves third where
  start_eq := hsecond.start_eq.trans hfirst.start_eq
  stop_eq := hsecond.stop_eq.trans hfirst.stop_eq
  le := Nat.le_trans hfirst.le hsecond.le

/-- A cursor that moves differs in its position only. -/
theorem Moves.eq_update {before after : Cursor} (hmoves : before.Moves after) :
    after = { before with current := after.current } := by
  cases before
  cases after
  obtain ⟨rfl, rfl, -⟩ := hmoves
  rfl

section Tokens

variable {cursor : Cursor} {tokens : List Token}

theorem peek?_eq_getElem? (cursor : Cursor) (tokens : List Token) (ahead : Nat) :
    cursor.peek? tokens ahead = (cursor.rest tokens)[ahead]? := by
  rw [peek?, rest, List.getElem?_drop, List.getElem?_take]

theorem Within.stop_lt (hwithin : cursor.Within tokens) : cursor.stop < tokens.length := by
  obtain ⟨token, htoken, -⟩ := Option.map_eq_some_iff.mp hwithin.semicolon
  exact (List.getElem?_eq_some_iff.mp htoken).1

theorem Within.inside (hwithin : cursor.Within tokens) : cursor.Inside tokens where
  start_le := hwithin.start_le
  le_stop := hwithin.le_stop
  stop_le := Nat.le_of_lt hwithin.stop_lt

theorem Inside.length_take (hinside : cursor.Inside tokens) {position : Nat}
    (hposition : position ≤ cursor.stop) : (tokens.take position).length = position := by
  rw [List.length_take, Nat.min_eq_left (Nat.le_trans hposition hinside.stop_le)]

theorem Inside.length_rest (hinside : cursor.Inside tokens) :
    (cursor.rest tokens).length = cursor.stop - cursor.current := by
  rw [rest, List.length_drop, hinside.length_take (Nat.le_refl _)]

theorem Within.length_rest (hwithin : cursor.Within tokens) :
    (cursor.rest tokens).length = cursor.stop - cursor.current :=
  hwithin.inside.length_rest

theorem Within.length_window (hwithin : cursor.Within tokens) :
    (cursor.window tokens).length = cursor.stop - cursor.start := by
  rw [window, List.length_drop, hwithin.inside.length_take (Nat.le_refl _)]

/-- Looking one position before the end finds the last token, if there is one. -/
theorem Within.last?_eq (hwithin : cursor.Within tokens) :
    cursor.last? tokens = (cursor.window tokens).getLast? := by
  rw [List.getLast?_eq_getElem?, hwithin.length_window, window, List.getElem?_drop,
    List.getElem?_take, last?]
  have hstop := Nat.le_trans hwithin.start_le hwithin.le_stop
  by_cases hempty : cursor.start < cursor.stop
  · have hlast : cursor.start + (cursor.stop - cursor.start - 1) = cursor.stop - 1 := by omega
    rw [if_pos hempty, hlast, if_pos (by omega)]
  · rw [if_neg hempty, if_neg (by omega)]

theorem moves_advance (hwithin : cursor.Within tokens) : cursor.Moves cursor.advance where
  start_eq := rfl
  stop_eq := rfl
  le := Nat.le_min.mpr ⟨Nat.le_succ _, hwithin.le_stop⟩

theorem Within.advance (hwithin : cursor.Within tokens) : cursor.advance.Within tokens where
  start_le := Nat.le_trans hwithin.start_le (moves_advance hwithin).le
  le_stop := Nat.min_le_right _ _
  semicolon := hwithin.semicolon

/-- At the end of the statement the cursor stays, and nothing is left to lose. -/
theorem Within.rest_advance (hwithin : cursor.Within tokens) :
    cursor.advance.rest tokens = (cursor.rest tokens).tail := by
  rw [rest, rest, List.tail_drop]
  by_cases hend : cursor.current < cursor.stop
  · rw [Cursor.advance, Nat.min_eq_left hend]
  · have hcurrent : cursor.current = cursor.stop :=
      Nat.le_antisymm hwithin.le_stop (Nat.le_of_not_lt hend)
    have hadvance : cursor.advance.current = cursor.stop :=
      Nat.min_eq_right (hcurrent ▸ Nat.le_succ _)
    have htake : (tokens.take cursor.stop).length ≤ cursor.stop := List.length_take_le _ _
    rw [hadvance, hcurrent, List.drop_eq_nil_of_le (Nat.le_succ_of_le htake)]
    exact List.drop_eq_nil_of_le htake

/-- How far a cursor has come in its statement is told by what it has left. -/
theorem Moves.eq_of_rest_eq {before after : Cursor} (hmoves : before.Moves after)
    (hbefore : before.Within tokens) (hafter : after.Within tokens)
    (hrest : after.rest tokens = before.rest tokens) : after = before := by
  have hlength := congrArg List.length hrest
  rw [hafter.length_rest, hbefore.length_rest, hmoves.stop_eq] at hlength
  have hafter := hafter.le_stop
  have hbefore := hbefore.le_stop
  rw [hmoves.stop_eq] at hafter
  have hcurrent : after.current = before.current := by omega
  rw [hmoves.eq_update, hcurrent]

theorem Moves.lt_of_length_lt {before after : Cursor} (hmoves : before.Moves after)
    (hbefore : before.Within tokens) (hafter : after.Within tokens)
    (hrest : (after.rest tokens).length < (before.rest tokens).length) :
    before.current < after.current := by
  rw [hafter.length_rest, hbefore.length_rest, hmoves.stop_eq] at hrest
  omega

theorem Within.current_eq_stop (hwithin : cursor.Within tokens)
    (hrest : cursor.rest tokens = []) : cursor.current = cursor.stop := by
  have hlength := hwithin.length_rest
  rw [hrest, List.length_nil] at hlength
  exact Nat.le_antisymm hwithin.le_stop (Nat.le_of_sub_eq_zero hlength.symm)

end Tokens

end Cursor

end Dataflow
