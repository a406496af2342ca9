import Dataflow.Program.Json
import Dataflow.Proofs.JsonText
import Mathlib.Data.List.Basic

/-!
# Serialized programs

A program is determined by its compact JSON text, down to the order of the
properties of its components: the text determines the JSON value, and the tag of
each value determines the constructor that it was made by.
-/

namespace Dataflow

theorem Atom.toJson_inj {left right : Atom} : left.toJson = right.toJson ↔ left = right := by
  cases left <;> cases right <;> simp [toJson, Json.tagged]

theorem Signature.toJson_inj {left right : Signature} :
    left.toJson = right.toJson ↔ left = right := by
  cases left <;> cases right <;> simp [toJson, Json.tagged]

/-- A missing type is not the same as any type. -/
theorem Signature.toJson_option_inj {left right : Option Signature} :
    (left.map toJson).getD .null = (right.map toJson).getD .null ↔ left = right := by
  have hnull : ∀ signature : Signature, signature.toJson ≠ .null := by
    intro signature
    cases signature <;> simp [toJson, Json.tagged]
  cases left <;> cases right <;> simp [toJson_inj, hnull, (hnull _).symm]

theorem Settings.toJson_inj {left right : Settings} :
    left.toJson = right.toJson ↔ left = right := by
  have hentry : Function.Injective fun (entry : String × Atom) => (entry.1, entry.2.toJson) := by
    rintro ⟨name, value⟩ ⟨other, value'⟩ heq
    obtain ⟨hname, hvalue⟩ := Prod.mk.inj heq
    exact Prod.ext hname (Atom.toJson_inj.mp hvalue)
  constructor
  · intro heq
    exact ext (hentry.list_map (Json.object.inj heq))
  · exact congrArg toJson

mutual

theorem Pattern.eq_of_toJson {left right : Pattern} (heq : left.toJson = right.toJson) :
    left = right := by
  match left, right with
  | .atom value, .atom other => rw [Atom.toJson_inj.mp heq]
  | .constructor name args, .constructor other others =>
      simp only [toJson, Json.tagged, Json.object.injEq, List.cons.injEq, Prod.mk.injEq,
        Json.string.injEq, Json.array.injEq, true_and, and_true] at heq
      rw [heq.1, Pattern.eq_of_toJsons heq.2]
  | .atom value, .constructor _ _ | .constructor _ _, .atom value =>
      cases value <;> simp [toJson, Atom.toJson, Json.tagged] at heq

theorem Pattern.eq_of_toJsons {left right : List Pattern}
    (heq : Pattern.toJsons left = Pattern.toJsons right) : left = right := by
  match left, right with
  | [], [] => rfl
  | pattern :: rest, other :: others =>
      obtain ⟨hhead, htail⟩ := List.cons.inj heq
      rw [Pattern.eq_of_toJson hhead, Pattern.eq_of_toJsons htail]
  | [], _ :: _ | _ :: _, [] => contradiction

end

mutual

theorem Expr.eq_of_toJson {left right : Expr} (heq : left.toJson = right.toJson) :
    left = right := by
  match left, right with
  | .atom value, .atom other => rw [Atom.toJson_inj.mp heq]
  | .flow steps, .flow others =>
      simp only [toJson, Json.tagged, Json.object.injEq, List.cons.injEq, Prod.mk.injEq,
        Json.array.injEq, true_and, and_true] at heq
      rw [Expr.eq_of_toJsons heq]
  | .map entries, .map others =>
      simp only [toJson, Json.tagged, Json.object.injEq, List.cons.injEq, Prod.mk.injEq,
        Json.array.injEq, true_and, and_true] at heq
      rw [Expr.eq_of_entryJsons heq]
  | .config name settings, .config other others =>
      simp only [toJson, Json.tagged, Json.object.injEq, List.cons.injEq, Prod.mk.injEq,
        Json.string.injEq, Settings.toJson_inj, true_and, and_true] at heq
      rw [heq.1, heq.2]
  | .atom value, .flow _ | .atom value, .map _ | .atom value, .config _ _
  | .flow _, .atom value | .map _, .atom value | .config _ _, .atom value =>
      cases value <;> simp [toJson, Atom.toJson, Json.tagged] at heq
  | .flow _, .map _ | .flow _, .config _ _ | .map _, .flow _ | .map _, .config _ _
  | .config _ _, .flow _ | .config _ _, .map _ => simp [toJson, Json.tagged] at heq

theorem Expr.eq_of_toJsons {left right : List Expr}
    (heq : Expr.toJsons left = Expr.toJsons right) : left = right := by
  match left, right with
  | [], [] => rfl
  | expr :: rest, other :: others =>
      obtain ⟨hhead, htail⟩ := List.cons.inj heq
      rw [Expr.eq_of_toJson hhead, Expr.eq_of_toJsons htail]
  | [], _ :: _ | _ :: _, [] => contradiction

theorem Expr.eq_of_entryJsons {left right : List (Pattern × Expr)}
    (heq : Expr.entryJsons left = Expr.entryJsons right) : left = right := by
  match left, right with
  | [], [] => rfl
  | (key, value) :: rest, (otherKey, other) :: others =>
      obtain ⟨hhead, htail⟩ := List.cons.inj heq
      obtain ⟨hkey, hvalue⟩ := List.cons.inj (Json.array.inj hhead)
      rw [Pattern.eq_of_toJson hkey, Expr.eq_of_toJson (List.head_eq_of_cons_eq hvalue),
        Expr.eq_of_entryJsons htail]
  | [], _ :: _ | _ :: _, [] => contradiction

end

theorem Assignment.toJson_inj {left right : Assignment} :
    left.toJson = right.toJson ↔ left = right := by
  constructor
  · obtain ⟨name, signature, value⟩ := left
    obtain ⟨otherName, otherSignature, other⟩ := right
    intro heq
    simp only [toJson, Json.object.injEq, List.cons.injEq, Prod.mk.injEq, Json.string.injEq,
      Signature.toJson_option_inj, true_and, and_true] at heq
    obtain ⟨hname, hsignature, hvalue⟩ := heq
    rw [hname, hsignature, Expr.eq_of_toJson hvalue]
  · exact congrArg toJson

theorem Statement.toJson_injective : Function.Injective Statement.toJson := by
  intro left right heq
  cases left <;> cases right <;>
    simp_all [toJson, kind, Json.tagged, Assignment.toJson_inj, Signature.toJson_inj]

namespace Program

/-- The compact text of a program determines the program, so that a decoder can
recover every program from it. -/
theorem serialize_injective :
    Function.Injective serialize ∧
      ∃ decode : String → Program, ∀ program, decode (serialize program) = program := by
  have hinjective : Function.Injective serialize := by
    intro left right heq
    have hjson := Json.array.inj (Json.compact_inj.mp heq)
    exact Statement.toJson_injective.list_map hjson
  exact ⟨hinjective, hinjective.hasLeftInverse⟩

end Program

end Dataflow
