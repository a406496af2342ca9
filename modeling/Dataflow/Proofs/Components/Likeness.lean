import Dataflow.Proofs.Components.Program
import Dataflow.Proofs.Serialization
import Dataflow.Proofs.Sorting
import Mathlib.Data.List.Forall2

/-!
# Programs that are alike

Being alike is having the same form in name order.  It is an equivalence, it follows
from equal texts, and except for the properties of a component everything in a program
is compared in its order.  So the properties that a component is spelled with can be
put into any other order: the program that is read is alike.
-/

namespace Dataflow

/-! ## Alike expressions in one place -/

section

variable {left right : Expr}

mutual

theorem Expr.Place.sorted_fill (hsorted : left.sorted = right.sorted) :
    ∀ place : Expr.Place, (place.fill left).sorted = (place.fill right).sorted
  | .here => hsorted
  | .flow place => congrArg Expr.flow (place.sorted_fill hsorted)
  | .map place => congrArg Expr.map (place.sorted_fill hsorted)

theorem Expr.StepsPlace.sorted_fill (hsorted : left.sorted = right.sorted) :
    ∀ place : Expr.StepsPlace,
      Expr.sortedSteps (place.fill left) = Expr.sortedSteps (place.fill right)
  | .head place _ => congrArg (· :: _) (place.sorted_fill hsorted)
  | .tail _ place => congrArg (_ :: ·) (place.sorted_fill hsorted)

theorem Expr.EntriesPlace.sorted_fill (hsorted : left.sorted = right.sorted) :
    ∀ place : Expr.EntriesPlace,
      Expr.sortedEntries (place.fill left) = Expr.sortedEntries (place.fill right)
  | .head key place entries => by
      simp only [Expr.EntriesPlace.fill, Expr.sortedEntries, place.sorted_fill hsorted]
  | .tail (key, value) place => congrArg (_ :: ·) (place.sorted_fill hsorted)

end

theorem Statement.Place.sorted_fill (hsorted : left.sorted = right.sorted)
    (place : Statement.Place) : (place.fill left).sorted = (place.fill right).sorted := by
  cases place with
  | exportFlow place | assign place =>
      simp only [fill, Assignment.Place.fill, Statement.sorted, Assignment.sorted,
        place.value.sorted_fill hsorted]

/-- Alike expressions in one place make alike programs. -/
theorem Program.Place.alike_fill (halike : left.alike right = true) (place : Program.Place) :
    (place.fill left).alike (place.fill right) = true := by
  have hsorted := Expr.alike_iff_sorted_eq.mp halike
  rw [Program.alike_iff_sorted_eq]
  induction place with
  | head place program => exact congrArg (· :: _) (place.sorted_fill hsorted)
  | tail statement place ih => exact congrArg (_ :: ·) ih

end

/-! ## The parts of alike programs -/

theorem Expr.alikeAll_iff_forall₂ {lefts rights : List Expr} :
    Expr.alikeAll lefts rights = true ↔
      List.Forall₂ (fun left right => left.alike right = true) lefts rights := by
  induction lefts generalizing rights with
  | nil => cases rights <;> simp [alikeAll]
  | cons left lefts ih => cases rights <;> simp [alikeAll, ih]

theorem Expr.alikeEntries_iff_forall₂ {lefts rights : List (Pattern × Expr)} :
    Expr.alikeEntries lefts rights = true ↔
      List.Forall₂ (fun left right => left.1 = right.1 ∧ left.2.alike right.2 = true)
        lefts rights := by
  induction lefts generalizing rights with
  | nil => cases rights <;> simp [alikeEntries]
  | cons left lefts ih =>
      cases rights <;> simp [alikeEntries, ih, Pattern.alike_iff_eq]

namespace Program

theorem alike_iff_forall₂ {left right : Program} :
    left.alike right = true ↔
      List.Forall₂ (fun statement other => statement.alike other = true) left right := by
  induction left generalizing right with
  | nil => cases right <;> simp [alike]
  | cons statement program ih => cases right <;> simp [alike, ih]

theorem alike_equivalence : Equivalence fun left right : Program => left.alike right = true where
  refl _ := alike_iff_sorted_eq.mpr rfl
  symm halike := alike_iff_sorted_eq.mpr (alike_iff_sorted_eq.mp halike).symm
  trans hfirst hsecond :=
    alike_iff_sorted_eq.mpr
      ((alike_iff_sorted_eq.mp hfirst).trans (alike_iff_sorted_eq.mp hsecond))

theorem eq_of_serialize {left right : Program} (heq : left.serialize = right.serialize) :
    left = right :=
  Statement.toJson_injective.list_map (Json.array.inj (Json.compact_inj.mp heq))

/-- Distinct properties in another order are read as an alike program. -/
theorem exists_alike_of_perm {limit : Nat} {before after : List Token} {name : String}
    {properties others : List (String × Atom)} {program : Program}
    (hnodup : (properties.map Prod.fst).Nodup) (hperm : others.Perm properties)
    (hread : ofTokens limit (before ++ componentTokens name properties ++ after) = .ok program) :
    ∃ program', ofTokens limit (before ++ componentTokens name others ++ after) = .ok program' ∧
      program.alike program' = true := by
  cases properties with
  | nil =>
      rw [hperm.eq_nil]
      exact ⟨program, hread, alike_equivalence.refl program⟩
  | cons property properties =>
      obtain ⟨place, rfl, hhosts⟩ := (ofTokens_eq_ok_iff_derives.mp hread).1.exists_place
      refine ⟨_, ofTokens_of_hosts hhosts hread others, place.alike_fill ?_⟩
      have hothers : (others.map Prod.fst).Nodup := (hperm.map Prod.fst).nodup_iff.mpr hnodup
      have halike : (Settings.ofList (property :: properties)).alike (.ofList others) = true := by
        rw [Settings.alike_iff_perm, Settings.entries_ofList hnodup,
          Settings.entries_ofList hothers]
        exact hperm.symm
      simp [Expr.alike, halike]

/-- Programs are alike when they are the same after the properties of every component
are put into the order of their names. -/
theorem alike_up_to_property_order :
    (∀ left right : Program, left.alike right = true ↔ left.sorted = right.sorted) ∧
    Equivalence (fun left right : Program => left.alike right = true) ∧
    (∀ left right : Program, left.serialize = right.serialize → left.alike right = true) ∧
    (∀ left right : Program, left.alike right = true ↔
      List.Forall₂ (fun statement other => statement.alike other = true) left right) ∧
    (∀ steps others : List Expr, (Expr.flow steps).alike (.flow others) = true ↔
      List.Forall₂ (fun step other => step.alike other = true) steps others) ∧
    (∀ entries others : List (Pattern × Expr),
      (Expr.map entries).alike (.map others) = true ↔
        List.Forall₂ (fun entry other => entry.1 = other.1 ∧ entry.2.alike other.2 = true)
          entries others) ∧
    (∀ left right : Pattern, left.alike right = true ↔ left = right) ∧
    ∀ (limit : Nat) (before after : List Token) (name : String)
      (properties others : List (String × Atom)) (program : Program),
      (properties.map Prod.fst).Nodup → others.Perm properties →
        ofTokens limit (before ++ componentTokens name properties ++ after) = .ok program →
          ∃ program',
            ofTokens limit (before ++ componentTokens name others ++ after) = .ok program' ∧
              program.alike program' = true := by
  refine ⟨fun left right => alike_iff_sorted_eq, alike_equivalence, fun left right htext => ?_,
    fun left right => alike_iff_forall₂, fun steps others => ?_, fun entries others => ?_,
    fun left right => Pattern.alike_iff_eq,
    fun limit before after name properties others program => exists_alike_of_perm⟩
  · rw [eq_of_serialize htext]
    exact alike_equivalence.refl right
  · rw [Expr.alike, Expr.alikeAll_iff_forall₂]
  · rw [Expr.alike, Expr.alikeEntries_iff_forall₂]

/-- Three properties of a component in the reverse order, inside a map. -/
theorem alike_reversed_properties :
    ofTokens 9 (tokenize "x = \x7b 1 : f ( a = 1 , b = 2 , c = d ) \x7d ;") =
        .ok [.assign ⟨"x", none, .map [(.atom (.literal "1"), .config "f" (.ofList
          [("a", .literal "1"), ("b", .literal "2"), ("c", .identifier "d")]))]⟩] ∧
      ∃ program',
        ofTokens 9 (tokenize "x = \x7b 1 : f ( c = d , b = 2 , a = 1 ) \x7d ;") =
            .ok program' ∧
          Program.alike [.assign ⟨"x", none, .map [(.atom (.literal "1"), .config "f" (.ofList
            [("a", .literal "1"), ("b", .literal "2"), ("c", .identifier "d")]))]⟩] program' =
              true := by
  have htokens : tokenize "x = \x7b 1 : f ( a = 1 , b = 2 , c = d ) \x7d ;" =
      tokenize "x = \x7b 1 :" ++ componentTokens "f"
        [("a", .literal "1"), ("b", .literal "2"), ("c", .identifier "d")] ++
          tokenize "\x7d ;" := by
    decide +kernel
  have hothers : tokenize "x = \x7b 1 : f ( c = d , b = 2 , a = 1 ) \x7d ;" =
      tokenize "x = \x7b 1 :" ++ componentTokens "f"
        [("c", .identifier "d"), ("b", .literal "2"), ("a", .literal "1")] ++
          tokenize "\x7d ;" := by
    decide +kernel
  have hread : ofTokens 9 (tokenize "x = \x7b 1 : f ( a = 1 , b = 2 , c = d ) \x7d ;") =
      .ok [.assign ⟨"x", none, .map [(.atom (.literal "1"), .config "f" (.ofList
        [("a", .literal "1"), ("b", .literal "2"), ("c", .identifier "d")]))]⟩] := by
    decide +kernel
  obtain ⟨-, -, -, -, -, -, -, hperm⟩ := alike_up_to_property_order
  refine ⟨hread, ?_⟩
  rw [htokens] at hread
  rw [hothers]
  exact hperm _ _ _ _ _ _ _ (by decide) (by decide) hread

end Program

end Dataflow
