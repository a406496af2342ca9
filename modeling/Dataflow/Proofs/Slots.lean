import Dataflow.Proofs.Brackets.Maps
import Dataflow.Proofs.Places

/-!
# Slots

A slot is the place of the value of a map entry, in an expression, a statement or a
program, at any depth.  Wherever the tokens of a program hold a colon, the tokens of
a value, and then a comma or a closing brace, the value stands in a slot of the
program, and the tokens of any other value may take its place.
-/

namespace Dataflow

mutual

/-- What stands in the place is the value of a map entry. -/
def Expr.Place.IsSlot : Expr.Place → Prop
  | .here => False
  | .flow place => place.IsSlot
  | .map place => place.IsSlot

def Expr.StepsPlace.IsSlot : Expr.StepsPlace → Prop
  | .head place _ => place.IsSlot
  | .tail _ place => place.IsSlot

def Expr.EntriesPlace.IsSlot : Expr.EntriesPlace → Prop
  | .head _ place _ => place = .here ∨ place.IsSlot
  | .tail _ place => place.IsSlot

end

def Statement.Place.IsSlot : Statement.Place → Prop
  | .exportFlow place => place.value.IsSlot
  | .assign place => place.value.IsSlot

def Program.Place.IsSlot : Program.Place → Prop
  | .head place _ => place.IsSlot
  | .tail _ place => place.IsSlot

/-! ## The tokens of a slot -/

/-- The tokens before a colon and those after a value derive something with a slot
for the value. -/
def Takes {α : Type} (derives : List Token → α → Prop) (before after : List Token)
    (fill : Expr → α) : Prop :=
  ∀ {tokens : List Token} {value : Expr}, Expr.Derives tokens value →
    derives (before ++ .mark .colon :: (tokens ++ after)) (fill value)

/-- The tokens after a colon begin with a value and what ends it, and the result has
the value in its slot. -/
inductive EntryAt {α : Type} (derives : List Token → α → Prop) (before : List Token)
    (fill : Expr → α) : List Token → α → Prop where
  | intro {tokens rest : List Token} {value : Expr} {separator : Token}
      (hvalue : Expr.Derives tokens value) (hseparator : separator.endsEntry = true)
      (htakes : Takes derives before (separator :: rest) fill) :
      EntryAt derives before fill (tokens ++ separator :: rest) (fill value)

/-- What a derivation adds around its part stands around the entry of that part. -/
theorem EntryAt.wrap {α β : Type} {derives : List Token → α → Prop}
    {derives' : List Token → β → Prop} {before tail : List Token} {fill : Expr → α}
    {result : α} (f : α → β) (front back : List Token)
    (hentry : EntryAt derives before fill tail result)
    (hwrap : ∀ {tokens value}, derives tokens (fill value) →
      derives' (front ++ (tokens ++ back)) (f (fill value))) :
    EntryAt derives' (front ++ before) (fun value => f (fill value)) (tail ++ back)
      (f result) := by
  cases hentry with
  | intro hvalue hseparator htakes =>
      rw [List.append_assoc, List.cons_append]
      refine .intro hvalue hseparator fun hother => ?_
      have hderives := hwrap (htakes hother)
      simpa using hderives

theorem EntryAt.prepend {α β : Type} {derives : List Token → α → Prop}
    {derives' : List Token → β → Prop} {before tail : List Token} {fill : Expr → α}
    {result : α} (f : α → β) (front : List Token)
    (hentry : EntryAt derives before fill tail result)
    (hwrap : ∀ {tokens value}, derives tokens (fill value) →
      derives' (front ++ tokens) (f (fill value))) :
    EntryAt derives' (front ++ before) (fun value => f (fill value)) tail (f result) := by
  have hwrapped := hentry.wrap f front [] fun {tokens value} hderives => by
    rw [List.append_nil]
    exact hwrap hderives
  rwa [List.append_nil] at hwrapped

/-! ## Every colon of a value belongs to an entry -/

/-- A token of an append stands in its front or in its rest. -/
theorem append_eq_append_cons {α : Type} {front rest before tail : List α} {a : α}
    (heq : front ++ rest = before ++ a :: tail) :
    (∃ inner, front = before ++ a :: inner ∧ tail = inner ++ rest) ∨
      ∃ inner, before = front ++ inner ∧ rest = inner ++ a :: tail := by
  rcases List.append_eq_append_iff.mp heq with ⟨inner, hbefore, hrest⟩ | ⟨inner, hfront, htail⟩
  · exact .inr ⟨inner, hbefore, hrest⟩
  · cases inner with
    | nil => exact .inr ⟨[], by simp [hfront], htail.symm⟩
    | cons first inner =>
        obtain ⟨rfl, rfl⟩ := List.cons.inj htail
        exact .inl ⟨inner, hfront, rfl⟩

theorem append_eq_append_cons_of_not_mem {α : Type} {front rest before tail : List α} {a : α}
    (hfront : a ∉ front) (heq : front ++ rest = before ++ a :: tail) :
    ∃ inner, before = front ++ inner ∧ rest = inner ++ a :: tail := by
  rcases append_eq_append_cons heq with ⟨inner, rfl, -⟩ | hrest
  · exact absurd (List.mem_append_right _ List.mem_cons_self) hfront
  · exact hrest

/-- The tokens after an opening brace: entries and the closing brace. -/
def Expr.DerivesClosed (tokens : List Token) (entries : List (Pattern × Expr)) : Prop :=
  ∃ inner, tokens = inner ++ [.mark .closeBrace] ∧ Expr.DerivesEntries inner entries

theorem Expr.DerivesSteps.derives_flow {tokens : List Token} {step : Expr} {steps : List Expr}
    (hsteps : Expr.DerivesSteps tokens (step :: steps)) (hne : steps ≠ []) :
    Expr.Derives tokens (.flow (step :: steps)) := by
  obtain ⟨second, steps, rfl⟩ := List.exists_cons_of_ne_nil hne
  exact .flow hsteps

/-- The slot of some steps is a slot of the expression that they are. -/
theorem Expr.StepsPlace.exists_slot {before tail : List Token} {steps : List Expr}
    {expr : Expr} {place : Expr.StepsPlace} (hslot : place.IsSlot)
    (hentry : EntryAt Expr.DerivesSteps before place.fill tail steps)
    (hexpr : Expr.ofSteps? steps = some expr) :
    ∃ slot : Expr.Place, slot.IsSlot ∧ EntryAt Expr.Derives before slot.fill tail expr := by
  cases hentry with
  | intro hvalue hseparator htakes =>
      cases place with
      | head place steps =>
          cases steps with
          | nil =>
              obtain rfl := Option.some.inj hexpr
              exact ⟨place, hslot, .intro hvalue hseparator fun hother => .step (htakes hother)⟩
          | cons second steps =>
              obtain rfl := Option.some.inj hexpr
              exact ⟨.flow (.head place (second :: steps)), hslot,
                .intro hvalue hseparator fun hother => .flow (htakes hother)⟩
      | tail step place =>
          obtain ⟨second, others, hfill⟩ := List.exists_cons_of_ne_nil (place.fill_ne_nil _)
          rw [fill, hfill] at hexpr
          obtain rfl := Option.some.inj hexpr
          rw [← hfill]
          exact ⟨.flow (.tail step place), hslot, .intro hvalue hseparator fun hother =>
            (htakes hother).derives_flow (place.fill_ne_nil _)⟩

/-- A colon at or after the key of an entry is its own, or stands in its value, or
comes after the entry. -/
theorem Expr.exists_slot_or_after {keyTokens valueTokens after before tail : List Token}
    {key : Pattern} {value : Expr} {separator : Token} {entries : List (Pattern × Expr)}
    (hkey : Pattern.Derives keyTokens key) (hvalue : Expr.Derives valueTokens value)
    (hslot : ∀ {before tail}, valueTokens = before ++ .mark .colon :: tail →
      ∃ slot : Expr.Place, slot.IsSlot ∧ EntryAt Expr.Derives before slot.fill tail value)
    (hseparator : separator.endsEntry = true)
    (hclosed : ∀ {tokens value}, Expr.Derives tokens value → Expr.DerivesClosed
      (keyTokens ++ .mark .colon :: (tokens ++ separator :: after)) ((key, value) :: entries))
    (heq : keyTokens ++ .mark .colon :: (valueTokens ++ separator :: after) =
      before ++ .mark .colon :: tail) :
    (∃ slot : Expr.EntriesPlace, slot.IsSlot ∧
        EntryAt Expr.DerivesClosed before slot.fill tail ((key, value) :: entries)) ∨
      ∃ inner, before = (keyTokens ++ .mark .colon :: (valueTokens ++ [separator])) ++ inner ∧
        after = inner ++ .mark .colon :: tail := by
  obtain ⟨inner, rfl, hinner⟩ :=
    append_eq_append_cons_of_not_mem (hkey.mark_not_mem (by decide)) heq
  cases inner with
  | nil =>
      obtain rfl := (List.cons.inj hinner).2
      rw [List.append_nil]
      exact .inl ⟨.head key .here entries, .inl rfl, .intro hvalue hseparator hclosed⟩
  | cons colon inner =>
      obtain ⟨rfl, htail⟩ := List.cons.inj hinner
      rcases append_eq_append_cons htail with ⟨tail, hfront, rfl⟩ | ⟨inner, rfl, hrest⟩
      · obtain ⟨slot, hslot, hentry⟩ := hslot hfront
        have hwrapped := hentry.wrap (fun value => (key, value) :: entries)
          (keyTokens ++ [.mark .colon]) (separator :: after) fun hother => by
            simpa using hclosed hother
        rw [List.append_assoc, List.singleton_append] at hwrapped
        exact .inl ⟨.head key slot entries, .inr hslot, hwrapped⟩
      · cases inner with
        | nil =>
            obtain rfl := (List.cons.inj hrest).1
            contradiction
        | cons first inner =>
            obtain ⟨rfl, rfl⟩ := List.cons.inj hrest
            exact .inr ⟨inner, by simp, rfl⟩

mutual

/-- Every colon in the tokens of a value stands before the value of an entry. -/
theorem Expr.Derives.exists_slot {tokens before tail : List Token} {expr : Expr} :
    Expr.Derives tokens expr → tokens = before ++ .mark .colon :: tail →
      ∃ slot : Expr.Place, slot.IsSlot ∧ EntryAt Expr.Derives before slot.fill tail expr
  | .step hsteps, heq => by
      obtain ⟨slot, hslot, hentry⟩ := hsteps.exists_slot heq
      exact slot.exists_slot hslot hentry rfl
  | .flow hsteps, heq => by
      obtain ⟨slot, hslot, hentry⟩ := hsteps.exists_slot heq
      exact slot.exists_slot hslot hentry rfl

theorem Expr.DerivesSteps.exists_slot {tokens before tail : List Token} {steps : List Expr} :
    Expr.DerivesSteps tokens steps → tokens = before ++ .mark .colon :: tail →
      ∃ slot : Expr.StepsPlace, slot.IsSlot ∧
        EntryAt Expr.DerivesSteps before slot.fill tail steps
  | .nil, heq => absurd heq (by simp)
  | .cons arrows hstep hrest, heq => by
      have harrows : Token.mark .colon ∉ List.replicate arrows (.mark .arrow) := by simp
      obtain ⟨inner, rfl, hinner⟩ := append_eq_append_cons_of_not_mem harrows heq
      rcases append_eq_append_cons hinner with ⟨tail, hfront, rfl⟩ | ⟨before, rfl, hafter⟩
      · obtain ⟨slot, hslot, hentry⟩ := hstep.exists_slot hfront
        exact ⟨.head slot _, hslot,
          hentry.wrap (· :: _) _ _ fun hother => .cons arrows hother hrest⟩
      · obtain ⟨slot, hslot, hentry⟩ := hrest.exists_slot hafter
        rw [← List.append_assoc]
        refine ⟨.tail _ slot, hslot, hentry.prepend (_ :: ·) _ fun hother => ?_⟩
        rw [List.append_assoc]
        exact .cons arrows hstep hother

theorem Expr.DerivesStep.exists_slot {tokens before tail : List Token} {step : Expr} :
    Expr.DerivesStep tokens step → tokens = before ++ .mark .colon :: tail →
      ∃ slot : Expr.Place, slot.IsSlot ∧ EntryAt Expr.DerivesStep before slot.fill tail step
  | .atom value, heq => by
      have hmem : Token.mark .colon ∈ [value.token] := heq ▸ by simp
      simp [(value.token_ne_mark _).symm] at hmem
  | .config name hsettings, heq => by
      have hmem := List.mem_append_right before (List.mem_cons_self (a := .mark .colon) (l := tail))
      rw [← heq] at hmem
      simp [hsettings.mark_not_mem] at hmem
  | .map hmap, heq => by
      obtain ⟨slot, hslot, hentry⟩ := hmap.exists_slot heq
      exact ⟨.map slot, hslot, hentry.prepend Expr.map [] .map⟩

theorem Expr.DerivesMap.exists_slot {tokens before tail : List Token}
    {entries : List (Pattern × Expr)} :
    Expr.DerivesMap tokens entries → tokens = before ++ .mark .colon :: tail →
      ∃ slot : Expr.EntriesPlace, slot.IsSlot ∧
        EntryAt Expr.DerivesMap before slot.fill tail entries
  | .empty, heq => by
      have hmem : Token.mark .colon ∈ [.mark .openBrace, .mark .closeBrace] := heq ▸ by simp
      simp at hmem
  | .entries hentries, heq => by
      have hbrace : Token.mark .colon ∉ [Token.mark .openBrace] := by simp
      obtain ⟨before, rfl, hinner⟩ := append_eq_append_cons_of_not_mem hbrace heq
      obtain ⟨slot, hslot, hentry⟩ := hentries.exists_slot hinner
      refine ⟨slot, hslot, hentry.prepend id [.mark .openBrace] ?_⟩
      rintro _ value ⟨inner, rfl, hother⟩
      exact .entries hother

theorem Expr.DerivesEntries.exists_slot {tokens before tail : List Token}
    {entries : List (Pattern × Expr)} :
    Expr.DerivesEntries tokens entries →
      tokens ++ [.mark .closeBrace] = before ++ .mark .colon :: tail →
        ∃ slot : Expr.EntriesPlace, slot.IsSlot ∧
          EntryAt Expr.DerivesClosed before slot.fill tail entries
  | .one hkey hvalue, heq => by
      rw [List.append_assoc, List.cons_append] at heq
      have hcases := Expr.exists_slot_or_after hkey hvalue hvalue.exists_slot
        (Token.endsEntry_iff.mpr (.inr rfl))
        (fun {tokens value} hother => ⟨_, by simp, .one hkey hother⟩) heq
      rcases hcases with hslot | ⟨inner, -, hinner⟩
      · exact hslot
      · simp at hinner
  | .cons hkey hvalue hrest, heq => by
      rw [List.append_assoc, List.cons_append, List.append_assoc, List.cons_append] at heq
      have hcases := Expr.exists_slot_or_after hkey hvalue hvalue.exists_slot
        (Token.endsEntry_iff.mpr (.inl rfl))
        (fun {tokens value} hother => ⟨_, by simp, .cons hkey hother hrest⟩) heq
      rcases hcases with hslot | ⟨before, rfl, hafter⟩
      · exact hslot
      · obtain ⟨slot, hslot, hentry⟩ := hrest.exists_slot hafter
        -- The entries before the slot end with the comma, and the brace stays with the rest.
        refine ⟨.tail (_, _) slot, hslot, hentry.prepend ((_, _) :: ·) _ ?_⟩
        rintro _ value ⟨inner, rfl, hother⟩
        exact ⟨_, by simp, .cons hkey hvalue hother⟩

end

/-! ## Statements and programs -/

/-- Where a value ends is determined, since the reader stops there. -/
theorem Expr.Derives.eq_of_append {front rest front' rest' : List Token} {value value' : Expr}
    (hvalue : Expr.Derives front value) (hvalue' : Expr.Derives front' value')
    (hrest : Expr.StopsAt Token.endsEntry rest) (hrest' : Expr.StopsAt Token.endsEntry rest')
    (heq : front ++ rest = front' ++ rest') : front = front' ∧ value = value' ∧ rest = rest' := by
  have hread := hvalue.read_eq 0 Expr.endsLikeEntry_endsEntry
    (Nat.lt_succ_of_le (Nat.le_max_left value.height value'.height)) hrest
  have hread' := hvalue'.read_eq 0 Expr.endsLikeEntry_endsEntry
    (Nat.lt_succ_of_le (Nat.le_max_right value.height value'.height)) hrest'
  rw [heq, hread'] at hread
  obtain ⟨rfl, rfl⟩ := Prod.mk.inj (Except.ok.inj hread)
  exact ⟨List.append_cancel_right heq, rfl, rfl⟩

section

variable {before after valueTokens : List Token} {separator : Token} {value : Expr}
variable (hvalue : Expr.Derives valueTokens value) (hseparator : separator.endsEntry = true)

include hvalue hseparator

theorem EntryAt.eq_fill {α : Type} {derives : List Token → α → Prop} {fill : Expr → α}
    {result : α}
    (hentry : EntryAt derives before fill (valueTokens ++ separator :: after) result) :
    result = fill value ∧ Takes derives before (separator :: after) fill := by
  generalize htail : valueTokens ++ separator :: after = tail at hentry
  cases hentry with
  | intro hother hseparator' htakes =>
      obtain ⟨-, rfl, hrest⟩ := hvalue.eq_of_append hother
        (by simpa [Expr.StopsAt] using hseparator) (by simpa [Expr.StopsAt] using hseparator') htail
      rw [hrest]
      exact ⟨rfl, htakes⟩

theorem Expr.Derives.exists_fill {expr : Expr}
    (hderives : Expr.Derives (before ++ .mark .colon :: (valueTokens ++ separator :: after)) expr) :
    ∃ slot : Expr.Place, slot.IsSlot ∧ expr = slot.fill value ∧
      Takes Expr.Derives before (separator :: after) slot.fill := by
  obtain ⟨slot, hslot, hentry⟩ := hderives.exists_slot rfl
  exact ⟨slot, hslot, hentry.eq_fill hvalue hseparator⟩

/-- A declared type does not begin like a value that ends like one of a map entry. -/
theorem Signature.Derives.append_ne {tokens rest : List Token} {signature : Signature}
    (hderives : Signature.Derives tokens signature) :
    tokens ++ .mark .equals :: rest ≠ valueTokens ++ separator :: after := by
  intro heq
  have hseparatorTokens : separator ∉ tokens := by
    cases hderives <;> rcases Token.endsEntry_iff.mp hseparator with rfl | rfl <;> simp
  obtain ⟨inner, rfl, hinner⟩ := append_eq_append_cons_of_not_mem hseparatorTokens heq
  cases inner with
  | nil =>
      obtain rfl := (List.cons.inj hinner).1
      contradiction
  | cons equals inner =>
      obtain rfl := (List.cons.inj hinner).1
      have hnot := (hvalue.undivided (m := .equals) (.inr (.inr rfl))).not_mem
      rw [hderives.balanced.withDepths_append, List.mem_append, not_or] at hnot
      exact hnot.2 List.mem_cons_self

theorem Assignment.Derives.exists_fill {assignment : Assignment}
    (hderives : Assignment.Derives
      (before ++ .mark .colon :: (valueTokens ++ separator :: after)) assignment) :
    ∃ slot : Assignment.Place, slot.value.IsSlot ∧ assignment = slot.fill value ∧
      Takes Assignment.Derives before (separator :: after) slot.fill := by
  generalize heq : before ++ .mark .colon :: (valueTokens ++ separator :: after) = tokens
    at hderives
  cases hderives with
  | untyped name hother =>
      have hfront : Token.mark .colon ∉ [.identifier name, .mark .equals] := by simp
      obtain ⟨inner, rfl, rfl⟩ := append_eq_append_cons_of_not_mem hfront heq.symm
      obtain ⟨slot, hslot, rfl, htakes⟩ := hvalue.exists_fill hseparator hother
      exact ⟨⟨name, none, slot⟩, hslot, rfl, fun hfill => .untyped name (htakes hfill)⟩
  | typed name htype hother =>
      have hname : Token.mark .colon ∉ [.identifier name] := by simp
      obtain ⟨inner, rfl, hinner⟩ := append_eq_append_cons_of_not_mem hname heq.symm
      cases inner with
      -- The colon before the declared type is not that of an entry.
      | nil => exact absurd (List.cons.inj hinner).2 (htype.append_ne hvalue hseparator)
      | cons colon inner =>
          obtain ⟨rfl, hrest⟩ := List.cons.inj hinner
          rw [List.append_cons] at hrest
          obtain ⟨inner, rfl, rfl⟩ :=
            append_eq_append_cons_of_not_mem (by cases htype <;> simp) hrest
          obtain ⟨slot, hslot, rfl, htakes⟩ := hvalue.exists_fill hseparator hother
          refine ⟨⟨name, some _, slot⟩, hslot, rfl, fun hfill => ?_⟩
          simpa [Assignment.Place.fill] using Assignment.Derives.typed name htype (htakes hfill)

theorem Statement.Derives.exists_fill {statement : Statement}
    (hderives : Statement.Derives
      (before ++ .mark .colon :: (valueTokens ++ separator :: after)) statement) :
    ∃ slot : Statement.Place, slot.IsSlot ∧ statement = slot.fill value ∧
      Takes Statement.Derives before (separator :: after) slot.fill := by
  generalize heq : before ++ .mark .colon :: (valueTokens ++ separator :: after) = tokens
    at hderives
  cases hderives with
  | empty => simp at heq
  | importName name htype =>
      have hmem : separator ∈ before ++ .mark .colon :: (valueTokens ++ separator :: after) := by
        simp
      rw [heq] at hmem
      rcases Token.endsEntry_iff.mp hseparator with rfl | rfl <;> cases htype <;> simp at hmem
  | exportFlow hassignment =>
      have hexport : Token.mark .colon ∉ [.mark .exportWord] := by simp
      obtain ⟨before, rfl, rfl⟩ := append_eq_append_cons_of_not_mem hexport heq.symm
      obtain ⟨slot, hslot, rfl, htakes⟩ := hassignment.exists_fill hvalue hseparator
      exact ⟨.exportFlow slot, hslot, rfl, fun hfill => .exportFlow (htakes hfill)⟩
  | assign hassignment =>
      subst heq
      obtain ⟨slot, hslot, rfl, htakes⟩ := hassignment.exists_fill hvalue hseparator
      exact ⟨.assign slot, hslot, rfl, fun hfill => .assign (htakes hfill)⟩

/-- Where a program holds a colon, a value and what ends it, the value stands in a
slot of the program. -/
theorem Program.Derives.exists_fill {program : Program}
    (hderives : Program.Derives
      (before ++ .mark .colon :: (valueTokens ++ separator :: after)) program) :
    ∃ slot : Program.Place, slot.IsSlot ∧ program = slot.fill value ∧
      Takes Program.Derives before (separator :: after) slot.fill := by
  generalize heq : before ++ .mark .colon :: (valueTokens ++ separator :: after) = tokens
    at hderives
  induction hderives generalizing before with
  | nil => simp at heq
  | cons hrun hrest ih =>
      -- The colon stands in this run, and then so does all of the value, or after it.
      rcases append_eq_append_cons heq.symm with ⟨tail, rfl, htail⟩ | ⟨inner, rfl, hinner⟩
      · have hnotValue : Token.mark .semicolon ∉ valueTokens := hvalue.isRun
        have hnot : Token.mark .semicolon ∉ valueTokens ++ [separator] := by
          rcases Token.endsEntry_iff.mp hseparator with rfl | rfl <;> simpa using hnotValue
        rw [List.append_cons] at htail
        obtain ⟨inner, rfl, rfl⟩ := append_eq_append_cons_of_not_mem hnot htail
        rw [List.append_assoc, List.singleton_append] at hrun
        obtain ⟨slot, hslot, rfl, htakes⟩ := hrun.exists_fill hvalue hseparator
        refine ⟨.head slot _, hslot, rfl, fun hfill => ?_⟩
        simpa [Place.fill] using Program.Derives.cons (htakes hfill) hrest
      · cases inner with
        | nil => simp at hinner
        | cons semicolon inner =>
            obtain ⟨rfl, hafter⟩ := List.cons.inj hinner
            obtain ⟨slot, hslot, rfl, htakes⟩ := ih hafter.symm
            refine ⟨.tail _ slot, hslot, rfl, fun hfill => ?_⟩
            simpa [Place.fill] using Program.Derives.cons hrun (htakes hfill)

end

end Dataflow
