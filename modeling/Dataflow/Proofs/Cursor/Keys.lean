import Dataflow.Proofs.Arrows
import Dataflow.Proofs.Cursor.Locality
import Dataflow.Proofs.Cursor.Parts

/-!
# The tokens of a key

The method for keys reads a pattern exactly where the tokens of that pattern stand, its
arguments have levels enough, and a bare name is not the beginning of a constructor.  It takes
these tokens and no others, so it only looks at the token after a bare name, and at one place
there is one pattern that it can read, whatever the depth and the limit are.
-/

namespace Dataflow

namespace Cursor

variable {cursor : Cursor} {tokens : List Token}

/-- The tokens from the cursor up to another position. -/
def upTo (cursor : Cursor) (tokens : List Token) (position : Nat) : List Token :=
  (tokens.take position).drop cursor.current

/-- The tokens up to the end of the part, and a semicolon in the place of those behind it. -/
def closed (cursor : Cursor) (tokens : List Token) : List Token :=
  tokens.take cursor.stop ++ [.mark .semicolon]

theorem Inside.length_upTo (hinside : cursor.Inside tokens) {position : Nat}
    (hposition : position ≤ cursor.stop) :
    (cursor.upTo tokens position).length = position - cursor.current := by
  rw [upTo, List.length_drop, hinside.length_take hposition]

theorem Inside.take_closed (hinside : cursor.Inside tokens) :
    (cursor.closed tokens).take cursor.stop = tokens.take cursor.stop :=
  List.take_left' (hinside.length_take (Nat.le_refl _))

theorem Inside.within_closed (hinside : cursor.Inside tokens) :
    cursor.Within (cursor.closed tokens) where
  start_le := hinside.start_le
  le_stop := hinside.le_stop
  semicolon := by
    have hlength := hinside.length_take (Nat.le_refl _)
    rw [closed, List.getElem?_append_right (Nat.le_of_eq hlength), hlength, Nat.sub_self]
    rfl

/-- What the cursor has before it is what stands up to a position and what stands behind. -/
theorem Inside.upTo_append (hinside : cursor.Inside tokens) {position : Nat}
    (hcurrent : cursor.current ≤ position) (hposition : position ≤ cursor.stop) :
    cursor.upTo tokens position ++ { cursor with current := position }.rest tokens =
      cursor.rest tokens := by
  have hlength : cursor.current ≤ (tokens.take position).length := by
    rwa [hinside.length_take hposition]
  have htake : tokens.take position = (tokens.take cursor.stop).take position := by
    rw [List.take_take, Nat.min_eq_left hposition]
  rw [upTo, rest, rest, ← List.drop_append_of_le_length hlength, htake, List.take_append_drop]

/-- Where tokens end that the cursor has before it. -/
theorem Inside.position_of_rest_eq (hinside : cursor.Inside tokens) {front left : List Token}
    (hrest : cursor.rest tokens = front ++ left) :
    cursor.current + front.length ≤ cursor.stop ∧
      cursor.upTo tokens (cursor.current + front.length) = front ∧
      { cursor with current := cursor.current + front.length }.rest tokens = left := by
  have hlength := congrArg List.length hrest
  rw [hinside.length_rest, List.length_append] at hlength
  have hcurrent := hinside.le_stop
  have hposition : cursor.current + front.length ≤ cursor.stop := by omega
  have hupTo := hinside.length_upTo hposition
  rw [Nat.add_sub_cancel_left] at hupTo
  have happend := hinside.upTo_append (Nat.le_add_right _ _) hposition
  rw [hrest] at happend
  exact ⟨hposition, List.append_inj happend hupTo⟩

/-- The cursor has the tokens up to a position before it, and they tell the position. -/
theorem Inside.rest_eq_of_upTo (hinside : cursor.Inside tokens) {front : List Token}
    {position : Nat} (hposition : position ≤ cursor.stop)
    (hupTo : cursor.upTo tokens position = front) (hfront : front ≠ []) :
    position = cursor.current + front.length ∧
      cursor.rest tokens = front ++ { cursor with current := position }.rest tokens := by
  have hlength := hinside.length_upTo hposition
  have hpositive := List.length_pos_of_ne_nil hfront
  rw [hupTo] at hlength
  have hcurrent : cursor.current ≤ position := by omega
  exact ⟨by omega, by rw [← hinside.upTo_append hcurrent hposition, hupTo]⟩

end Cursor

namespace Pattern

theorem tokens_ne_nil (pattern : Pattern) : pattern.tokens ≠ [] := by
  cases pattern <;> exact List.cons_ne_nil _ _

theorem endsBefore_iff {rest : List Token} {pattern : Pattern} :
    pattern.EndsBefore rest ↔ ∀ name, pattern = .atom (.identifier name) →
      rest.head? ≠ some (.mark .openParen) := by
  constructor
  · rintro hends name rfl
    exact hends
  · intro hends
    cases pattern with
    | constructor name args => trivial
    | atom value =>
        cases value with
        | literal text => trivial
        | identifier name => exact hends name rfl

/-- In a part of the tokens only a token in front of its end can follow a pattern. -/
theorem endsBefore_rest_iff {cursor : Cursor} {tokens : List Token} {pattern : Pattern} :
    pattern.EndsBefore (cursor.rest tokens) ↔ ∀ name, pattern = .atom (.identifier name) →
      cursor.current < cursor.stop → tokens[cursor.current]? ≠ some (.mark .openParen) := by
  have hhead : (cursor.rest tokens).head? =
      if cursor.current < cursor.stop then tokens[cursor.current]? else none := by
    rw [List.head?_eq_getElem?, ← Cursor.peek?_eq_getElem?]
    rfl
  rw [endsBefore_iff, hhead]
  by_cases hlt : cursor.current < cursor.stop <;> simp [hlt]

theorem read_eq_ok_iff_tokens {limit room : Nat} {tokens rest : List Token} {pattern : Pattern} :
    (reader limit room).read tokens = .ok (pattern, rest) ↔
      tokens = pattern.tokens ++ rest ∧ pattern.height < room ∧ pattern.EndsBefore rest := by
  rw [read_eq_ok_iff]
  constructor
  · rintro ⟨⟨front, rfl, hderives, hheight⟩, hends⟩
    exact ⟨by rw [hderives.eq_tokens], hheight, hends⟩
  · rintro ⟨htokens, hheight, hends⟩
    exact ⟨⟨pattern.tokens, htokens, pattern.derives_tokens, hheight⟩, hends⟩

/-- At a level the same pattern is read as with the room that the level leaves. -/
theorem readerAt_eq_ok_iff {limit level : Nat} {tokens rest : List Token} {pattern : Pattern}
    (hlevel : level ≤ limit) :
    (readerAt limit level).read tokens = .ok (pattern, rest) ↔
      tokens = pattern.tokens ++ rest ∧ level + pattern.height < limit ∧
        pattern.EndsBefore rest := by
  obtain ⟨room, rfl⟩ := Nat.exists_eq_add_of_le hlevel
  rw [readerAt_eq_reader, read_eq_ok_iff_tokens, Nat.add_lt_add_iff_left]

/-- Tokens begin with one pattern at most. -/
theorem eq_of_tokens_append {left right : Pattern} {rest others : List Token}
    (htokens : left.tokens ++ rest = right.tokens ++ others) (hleft : left.EndsBefore rest)
    (hright : right.EndsBefore others) : left = right := by
  have hread := (@read_eq_ok_iff_tokens 0 _ _ _ _).mpr
    ⟨rfl, Nat.lt_succ_of_le (Nat.le_max_left left.height right.height), hleft⟩
  have hread' := (@read_eq_ok_iff_tokens 0 _ _ _ _).mpr
    ⟨htokens, Nat.lt_succ_of_le (Nat.le_max_right left.height right.height), hright⟩
  rw [hread] at hread'
  exact (Prod.mk.inj (Except.ok.inj hread')).1

end Pattern

namespace Scan

variable {tokens left : List Token} {limit depth : Nat} {scanner after : Scanner}
variable {pattern : Pattern}

/-- Closed with a semicolon, any part of the tokens is a statement that the method can be called
on, and the reader of lists tells what it yields there. -/
theorem yields_key_closed (hinside : scanner.cursor.Inside tokens) (hdepth : depth ≤ limit) :
    Yields limit (scanner.cursor.closed tokens)
      (key (scanner.cursor.closed tokens) limit depth) ⟨scanner.cursor, []⟩
      ((Pattern.readerAt limit depth).read (scanner.cursor.rest tokens)) := by
  have hrest : scanner.cursor.rest (scanner.cursor.closed tokens) = scanner.cursor.rest tokens := by
    rw [Cursor.rest, hinside.take_closed, Cursor.rest]
  exact follows_key hdepth ⟨hinside.within_closed, hrest, List.forall_mem_nil _⟩

/-- A call has no value as soon as its depth has come to the limit. -/
theorem depth_lt_of_key (hkey : key tokens limit depth scanner = some (.ok pattern, after)) :
    depth < limit := by
  by_contra hdepth
  have hdeep : (peek? tokens 0 >>= fun found => throw (.tooDeep depth found) : Scan Fault Pattern)
      scanner = some (.error (.tooDeep depth (scanner.cursor.peek? tokens 0)), scanner) := rfl
  rw [key, nested, dif_neg hdepth, record_eq hdeep] at hkey
  cases hkey

/-- Where the tokens of a pattern stand, the method reads it and goes behind these tokens. -/
theorem key_of_rest_eq (hinside : scanner.cursor.Inside tokens)
    (hrest : scanner.cursor.rest tokens = pattern.tokens ++ left)
    (hheight : depth + pattern.height < limit) (hends : pattern.EndsBefore left) :
    ∃ after, key tokens limit depth scanner = some (.ok pattern, after) ∧
      after.cursor = { scanner.cursor with
        current := scanner.cursor.current + pattern.tokens.length } := by
  have hdepth : depth ≤ limit := Nat.le_of_lt (Nat.lt_of_le_of_lt (Nat.le_add_right _ _) hheight)
  have hyields := yields_key_closed hinside hdepth
  rw [(Pattern.readerAt_eq_ok_iff hdepth).mpr ⟨hrest, hheight, hends⟩] at hyields
  obtain ⟨after, hkey, ⟨hmoves, -⟩, hsees, -⟩ := hyields
  have htwins : Scanner.Twins scanner.cursor.stop ⟨scanner.cursor, []⟩ scanner := ⟨rfl, rfl⟩
  obtain ⟨after', hkey', hcursor⟩ :=
    (agree_key hinside.take_closed limit depth).exists_eq htwins hkey
  have hleft : left.length = scanner.cursor.stop - after.cursor.current := by
    rw [← hsees.left_eq, Scanner.left, hmoves.stop_eq]
  have hlength := congrArg List.length hrest
  rw [hinside.length_rest, List.length_append, hleft] at hlength
  have hstop : after.cursor.current ≤ scanner.cursor.stop := hmoves.stop_eq ▸ hsees.within.le_stop
  have hle : scanner.cursor.current ≤ after.cursor.current := hmoves.le
  -- The cursor is behind the pattern, since it has as much left as the reader has.
  have hcurrent : after.cursor.current = scanner.cursor.current + pattern.tokens.length := by
    omega
  exact ⟨after', hkey', by rw [hcursor, hmoves.eq_update, hcurrent]⟩

/-- What the method reads stands at the cursor. -/
theorem rest_eq_of_key (hinside : scanner.cursor.Inside tokens)
    (hkey : key tokens limit depth scanner = some (.ok pattern, after)) :
    depth + pattern.height < limit ∧
      ∃ left, scanner.cursor.rest tokens = pattern.tokens ++ left ∧ pattern.EndsBefore left := by
  have hdepth := Nat.le_of_lt (depth_lt_of_key hkey)
  have htwins : scanner.Twins scanner.cursor.stop ⟨scanner.cursor, []⟩ := ⟨rfl, rfl⟩
  obtain ⟨other, hother, -⟩ :=
    (agree_key hinside.take_closed.symm limit depth).exists_eq htwins hkey
  have hread := (yields_key_closed hinside hdepth).eq_ok_of_eq hother
  obtain ⟨hrest, hheight, hends⟩ := (Pattern.readerAt_eq_ok_iff hdepth).mp hread
  exact ⟨hheight, _, hrest, hends⟩

theorem cursor_of_key (hinside : scanner.cursor.Inside tokens)
    (hkey : key tokens limit depth scanner = some (.ok pattern, after)) :
    after.cursor = { scanner.cursor with
      current := scanner.cursor.current + pattern.tokens.length } := by
  obtain ⟨hheight, left, hrest, hends⟩ := rest_eq_of_key hinside hkey
  obtain ⟨other, hother, hcursor⟩ := key_of_rest_eq hinside hrest hheight hends
  rw [hkey] at hother
  obtain ⟨-, rfl⟩ := Prod.mk.inj (Option.some.inj hother)
  exact hcursor

/-- The method reads a pattern and leaves the cursor at a position exactly when the tokens between
are those of the pattern, the limit admits the depth of its deepest argument, and a bare name is
not the beginning of a constructor. -/
theorem exists_key_iff_upTo (hinside : scanner.cursor.Inside tokens) {position : Nat} :
    (∃ after, key tokens limit depth scanner = some (.ok pattern, after) ∧
      after.cursor = { scanner.cursor with current := position }) ↔
    position ≤ scanner.cursor.stop ∧ scanner.cursor.upTo tokens position = pattern.tokens ∧
      depth + pattern.height < limit ∧
      ∀ name, pattern = .atom (.identifier name) → position < scanner.cursor.stop →
        tokens[position]? ≠ some (.mark .openParen) := by
  constructor
  · rintro ⟨after, hkey, hafter⟩
    obtain ⟨hheight, left, hrest, hends⟩ := rest_eq_of_key hinside hkey
    obtain ⟨hstop, hupTo, hleft⟩ := hinside.position_of_rest_eq hrest
    obtain rfl : scanner.cursor.current + pattern.tokens.length = position :=
      congrArg Cursor.current ((cursor_of_key hinside hkey).symm.trans hafter)
    rw [← hleft] at hends
    exact ⟨hstop, hupTo, hheight, Pattern.endsBefore_rest_iff.mp hends⟩
  · rintro ⟨hposition, hupTo, hheight, hnext⟩
    obtain ⟨rfl, hrest⟩ := hinside.rest_eq_of_upTo hposition hupTo pattern.tokens_ne_nil
    exact key_of_rest_eq hinside hrest hheight (Pattern.endsBefore_rest_iff.mpr hnext)

/-- The reader of lists, given the room that the depth leaves, reads what the method reads, and
leaves what the method leaves. -/
theorem read_eq_ok_iff_exists_key (hinside : scanner.cursor.Inside tokens) :
    (Pattern.reader limit (limit - depth)).read (scanner.cursor.rest tokens) =
        .ok (pattern, left) ↔
      ∃ after, key tokens limit depth scanner = some (.ok pattern, after) ∧
        after.cursor.rest tokens = left := by
  rw [Pattern.read_eq_ok_iff_tokens]
  constructor
  · rintro ⟨hrest, hheight, hends⟩
    obtain ⟨after, hkey, hafter⟩ :=
      key_of_rest_eq hinside hrest (Nat.lt_sub_iff_add_lt'.mp hheight) hends
    exact ⟨after, hkey, by rw [hafter, (hinside.position_of_rest_eq hrest).2.2]⟩
  · rintro ⟨after, hkey, rfl⟩
    obtain ⟨hheight, left, hrest, hends⟩ := rest_eq_of_key hinside hkey
    rw [cursor_of_key hinside hkey, (hinside.position_of_rest_eq hrest).2.2]
    exact ⟨hrest, Nat.lt_sub_iff_add_lt'.mpr hheight, hends⟩

/-- From one place no two patterns are read, at whatever depths and under whatever limits. -/
theorem eq_of_keys {other after' : Scanner} {limit' depth' : Nat} {pattern' : Pattern}
    (hinside : scanner.cursor.Inside tokens) (hcursor : other.cursor = scanner.cursor)
    (hkey : key tokens limit depth scanner = some (.ok pattern, after))
    (hkey' : key tokens limit' depth' other = some (.ok pattern', after')) :
    pattern = pattern' ∧ after.cursor = after'.cursor := by
  have hother : other.cursor.Inside tokens := hcursor ▸ hinside
  obtain ⟨-, left, hrest, hends⟩ := rest_eq_of_key hinside hkey
  obtain ⟨-, left', hrest', hends'⟩ := rest_eq_of_key hother hkey'
  rw [hcursor, hrest] at hrest'
  obtain rfl := Pattern.eq_of_tokens_append hrest' hends hends'
  exact ⟨rfl, by rw [cursor_of_key hinside hkey, cursor_of_key hother hkey', hcursor]⟩

/-- From any place in any part of any tokens the method for keys reads a pattern up to a position
exactly when the tokens up to it are those of the pattern, the limit admits its arguments, and
the token at the position, if the part goes on there, does not open the arguments of a bare name.
The reader of lists reads the same.  The cursor moves by the tokens of the pattern, so a bare
name leaves the token after it where it is, and from one place no two patterns are read. -/
theorem key_takes_tokens (hinside : scanner.cursor.Inside tokens) :
    (∀ limit depth pattern position,
      (∃ after, key tokens limit depth scanner = some (.ok pattern, after) ∧
        after.cursor = { scanner.cursor with current := position }) ↔
      position ≤ scanner.cursor.stop ∧ scanner.cursor.upTo tokens position = pattern.tokens ∧
        depth + pattern.height < limit ∧
        ∀ name, pattern = .atom (.identifier name) → position < scanner.cursor.stop →
          tokens[position]? ≠ some (.mark .openParen)) ∧
    (∀ limit depth pattern rest,
      (Pattern.reader limit (limit - depth)).read (scanner.cursor.rest tokens) =
          .ok (pattern, rest) ↔
        ∃ after, key tokens limit depth scanner = some (.ok pattern, after) ∧
          after.cursor.rest tokens = rest) ∧
    (∀ limit depth pattern after, key tokens limit depth scanner = some (.ok pattern, after) →
      after.cursor = { scanner.cursor with
        current := scanner.cursor.current + pattern.tokens.length }) ∧
    (∀ limit depth name after,
      key tokens limit depth scanner = some (.ok (.atom (.identifier name)), after) →
        after.cursor = { scanner.cursor with current := scanner.cursor.current + 1 }) ∧
    ∀ limit depth limit' depth' pattern pattern' after after' other,
      other.cursor = scanner.cursor →
      key tokens limit depth scanner = some (.ok pattern, after) →
      key tokens limit' depth' other = some (.ok pattern', after') →
        pattern = pattern' ∧ after.cursor = after'.cursor :=
  ⟨fun _ _ _ _ => exists_key_iff_upTo hinside, fun _ _ _ _ => read_eq_ok_iff_exists_key hinside,
    fun _ _ _ _ => cursor_of_key hinside, fun _ _ _ _ => cursor_of_key hinside,
    fun _ _ _ _ _ _ _ _ _ => eq_of_keys hinside⟩

/-- A constructor in the middle of the tokens, with an argument that is a constructor itself: it
takes two levels, and its first name alone is a pattern where the tokens are cut behind it. -/
theorem key_takes_tokens_constructor :
    let tokens : List Token :=
      [.mark .openBrace, .identifier "f", .mark .openParen, .identifier "x", .mark .comma,
        .identifier "g", .mark .openParen, .mark .closeParen, .mark .closeParen, .mark .colon]
    let pattern : Pattern := .constructor "f" [.atom (.identifier "x"), .constructor "g" []]
    Cursor.Inside ⟨0, 1, 10⟩ tokens ∧ Cursor.Inside ⟨0, 1, 2⟩ tokens ∧
      (∃ after, key tokens 4 2 ⟨⟨0, 1, 10⟩, []⟩ = some (.ok pattern, after) ∧
        after.cursor = ⟨0, 9, 10⟩) ∧
      (¬ ∃ after, key tokens 3 2 ⟨⟨0, 1, 10⟩, []⟩ = some (.ok pattern, after) ∧
        after.cursor = ⟨0, 9, 10⟩) ∧
      ∃ after, key tokens 3 2 ⟨⟨0, 1, 2⟩, []⟩ = some (.ok (.atom (.identifier "f")), after) ∧
        after.cursor = ⟨0, 2, 2⟩ := by
  intro tokens pattern
  have hlong : Cursor.Inside ⟨0, 1, 10⟩ tokens := ⟨by decide, by decide, by decide⟩
  have hshort : Cursor.Inside ⟨0, 1, 2⟩ tokens := ⟨by decide, by decide, by decide⟩
  obtain ⟨hconstructor, -⟩ := @key_takes_tokens tokens ⟨⟨0, 1, 10⟩, []⟩ hlong
  obtain ⟨hname, -⟩ := @key_takes_tokens tokens ⟨⟨0, 1, 2⟩, []⟩ hshort
  refine ⟨hlong, hshort, ?_, ?_, ?_⟩
  · exact (hconstructor 4 2 pattern 9).mpr ⟨by decide, rfl, by decide, nofun⟩
  · intro hkey
    obtain ⟨-, -, hheight, -⟩ := (hconstructor 3 2 pattern 9).mp hkey
    exact absurd hheight (by decide)
  · exact (hname 3 2 _ 2).mpr ⟨by decide, rfl, by decide, fun _ _ hlt => absurd hlt (by decide)⟩

end Scan

end Dataflow
