import Dataflow.Program.Alike
import Dataflow.Proofs.Properties
import Mathlib.Data.List.Nodup
import Mathlib.Data.List.Perm.Subperm

/-!
# Programs in name order

The order of the properties of a component carries no meaning.  Here each program
is given a form in which every component, at every depth, has its properties in the
order of their names.  Two settings are alike exactly when they hold the same
properties, in any order, and two programs are alike exactly when they have the same
form.
-/

namespace Dataflow

namespace Settings

/-! ## Settings in name order -/

/-- The entry does not come after the other one in name order. -/
def nameLe (left right : String × Atom) : Bool :=
  left.1 ≤ right.1

theorem nameLe_trans (first second third : String × Atom)
    (hfirst : nameLe first second = true) (hsecond : nameLe second third = true) :
    nameLe first third = true := by
  simp only [nameLe, decide_eq_true_eq] at hfirst hsecond ⊢
  exact String.le_trans hfirst hsecond

theorem nameLe_total (left right : String × Atom) :
    (nameLe left right || nameLe right left) = true := by
  simpa [nameLe] using String.le_total left.1 right.1

/-- The same settings with the names in order. -/
def sorted (settings : Settings) : Settings where
  entries := settings.entries.mergeSort nameLe
  nodup := ((List.mergeSort_perm settings.entries nameLe).map Prod.fst).nodup_iff.mpr
    settings.nodup

theorem entries_sorted_perm (settings : Settings) :
    settings.sorted.entries.Perm settings.entries :=
  List.mergeSort_perm settings.entries nameLe

/-- Only one order of the same properties is the name order. -/
theorem sorted_eq_iff_perm {left right : Settings} :
    left.sorted = right.sorted ↔ left.entries.Perm right.entries := by
  constructor
  · intro heq
    have hsorted := left.entries_sorted_perm
    rw [heq] at hsorted
    exact hsorted.symm.trans right.entries_sorted_perm
  · intro hperm
    have hsorted : left.sorted.entries.Perm right.sorted.entries :=
      left.entries_sorted_perm.trans (hperm.trans right.entries_sorted_perm.symm)
    apply ext
    refine hsorted.eq_of_pairwise (fun entry other hentry hother hle hge => ?_)
      (List.pairwise_mergeSort nameLe_trans nameLe_total left.entries)
      (List.pairwise_mergeSort nameLe_trans nameLe_total right.entries)
    -- Entries that come before one another have one name, and names are distinct.
    simp only [nameLe, decide_eq_true_eq] at hle hge
    exact List.inj_on_of_nodup_map left.sorted.nodup hentry (hsorted.mem_iff.mpr hother)
      (String.le_antisymm hle hge)

/-! ## Settings that are alike -/

theorem lookup_eq_some_iff_mem {entries : List (String × Atom)}
    (hnodup : (entries.map Prod.fst).Nodup) {name : String} {value : Atom} :
    entries.lookup name = some value ↔ (name, value) ∈ entries := by
  induction entries with
  | nil => simp
  | cons entry rest ih =>
      rw [List.map_cons, List.nodup_cons] at hnodup
      rw [lookup_cons_eq, List.mem_cons]
      by_cases hname : name = entry.1
      · have hfresh : (name, value) ∉ rest := fun hmem =>
          hnodup.1 (hname ▸ List.mem_map_of_mem hmem)
        simp [hname, Prod.ext_iff, eq_comm, hname ▸ hfresh]
      · simp [hname, Prod.ext_iff, ih hnodup.2]

theorem get?_eq_some_iff {settings : Settings} {name : String} {value : Atom} :
    settings.get? name = some value ↔ (name, value) ∈ settings.entries :=
  lookup_eq_some_iff_mem settings.nodup

/-- As many properties on both sides, with those of the one among those of the other,
are the same properties, since no property occurs twice. -/
theorem alike_iff_perm {left right : Settings} :
    left.alike right = true ↔ left.entries.Perm right.entries := by
  have hsubset : (left.entries.all fun entry => right.get? entry.1 = some entry.2) = true ↔
      left.entries ⊆ right.entries := by
    simp [List.all_eq_true, get?_eq_some_iff, List.subset_def]
  rw [alike, Bool.and_eq_true, decide_eq_true_iff, hsubset]
  constructor
  · rintro ⟨hlength, hmem⟩
    have hnodup : left.entries.Nodup := .of_map Prod.fst left.nodup
    exact (List.subperm_of_subset hnodup hmem).perm_of_length_le (Nat.le_of_eq hlength.symm)
  · intro hperm
    exact ⟨hperm.length_eq, hperm.subset⟩

theorem alike_iff_sorted_eq {left right : Settings} :
    left.alike right = true ↔ left.sorted = right.sorted :=
  alike_iff_perm.trans sorted_eq_iff_perm.symm

end Settings

/-! ## Programs in name order -/

mutual

/-- The expression with the properties of every component in name order. -/
def Expr.sorted : Expr → Expr
  | .atom value => .atom value
  | .flow steps => .flow (Expr.sortedSteps steps)
  | .map entries => .map (Expr.sortedEntries entries)
  | .config name settings => .config name settings.sorted

def Expr.sortedSteps : List Expr → List Expr
  | [] => []
  | step :: steps => step.sorted :: Expr.sortedSteps steps

def Expr.sortedEntries : List (Pattern × Expr) → List (Pattern × Expr)
  | [] => []
  | (key, value) :: entries => (key, value.sorted) :: Expr.sortedEntries entries

end

def Assignment.sorted (assignment : Assignment) : Assignment :=
  { assignment with value := assignment.value.sorted }

def Statement.sorted : Statement → Statement
  | .empty => .empty
  | .importName name signature => .importName name signature
  | .exportFlow assignment => .exportFlow assignment.sorted
  | .assign assignment => .assign assignment.sorted

def Program.sorted (program : Program) : Program :=
  program.map Statement.sorted

/-! ## Programs that are alike -/

mutual

/-- Patterns hold no properties, so only the same patterns are alike. -/
theorem Pattern.alike_iff_eq {left right : Pattern} :
    left.alike right = true ↔ left = right := by
  match left, right with
  | .atom value, .atom other => simp [Pattern.alike]
  | .constructor name args, .constructor other others =>
      simp [Pattern.alike, @Pattern.alikeAll_iff_eq args others]
  | .atom _, .constructor _ _ | .constructor _ _, .atom _ => simp [Pattern.alike]

theorem Pattern.alikeAll_iff_eq {lefts rights : List Pattern} :
    Pattern.alikeAll lefts rights = true ↔ lefts = rights := by
  match lefts, rights with
  | [], [] => simp [Pattern.alikeAll]
  | left :: lefts, right :: rights =>
      simp [Pattern.alikeAll, @Pattern.alike_iff_eq left right,
        @Pattern.alikeAll_iff_eq lefts rights]
  | [], _ :: _ | _ :: _, [] => simp [Pattern.alikeAll]

end

mutual

theorem Expr.alike_iff_sorted_eq {left right : Expr} :
    left.alike right = true ↔ left.sorted = right.sorted := by
  match left, right with
  | .atom value, .atom other => simp [Expr.alike, Expr.sorted]
  | .flow steps, .flow others =>
      simpa [Expr.alike, Expr.sorted] using @Expr.alikeAll_iff_sorted_eq steps others
  | .map entries, .map others =>
      simpa [Expr.alike, Expr.sorted] using @Expr.alikeEntries_iff_sorted_eq entries others
  | .config name settings, .config other others =>
      simp [Expr.alike, Expr.sorted, Settings.alike_iff_sorted_eq]
  | .atom _, .flow _ | .atom _, .map _ | .atom _, .config _ _
  | .flow _, .atom _ | .flow _, .map _ | .flow _, .config _ _
  | .map _, .atom _ | .map _, .flow _ | .map _, .config _ _
  | .config _ _, .atom _ | .config _ _, .flow _ | .config _ _, .map _ =>
      simp [Expr.alike, Expr.sorted]

theorem Expr.alikeAll_iff_sorted_eq {lefts rights : List Expr} :
    Expr.alikeAll lefts rights = true ↔ Expr.sortedSteps lefts = Expr.sortedSteps rights := by
  match lefts, rights with
  | [], [] => simp [Expr.alikeAll]
  | left :: lefts, right :: rights =>
      simp [Expr.alikeAll, Expr.sortedSteps, @Expr.alike_iff_sorted_eq left right,
        @Expr.alikeAll_iff_sorted_eq lefts rights]
  | [], _ :: _ | _ :: _, [] => simp [Expr.alikeAll, Expr.sortedSteps]

theorem Expr.alikeEntries_iff_sorted_eq {lefts rights : List (Pattern × Expr)} :
    Expr.alikeEntries lefts rights = true ↔
      Expr.sortedEntries lefts = Expr.sortedEntries rights := by
  match lefts, rights with
  | [], [] => simp [Expr.alikeEntries]
  | (key, left) :: lefts, (other, right) :: rights =>
      simp [Expr.alikeEntries, Expr.sortedEntries, Pattern.alike_iff_eq,
        @Expr.alike_iff_sorted_eq left right, @Expr.alikeEntries_iff_sorted_eq lefts rights]
  | [], _ :: _ | _ :: _, [] => simp [Expr.alikeEntries, Expr.sortedEntries]

end

theorem Assignment.alike_iff_sorted_eq {left right : Assignment} :
    left.alike right = true ↔ left.sorted = right.sorted := by
  simp [alike, sorted, Expr.alike_iff_sorted_eq, and_assoc]

theorem Statement.alike_iff_sorted_eq {left right : Statement} :
    left.alike right = true ↔ left.sorted = right.sorted := by
  cases left <;> cases right <;> simp [alike, sorted, Assignment.alike_iff_sorted_eq]

/-- Two programs are alike exactly when they have the same form in name order. -/
theorem Program.alike_iff_sorted_eq {left right : Program} :
    left.alike right = true ↔ left.sorted = right.sorted := by
  induction left generalizing right with
  | nil => cases right <;> simp [alike, sorted]
  | cons statement program ih =>
      cases right with
      | nil => simp [alike, sorted]
      | cons other others =>
          simp only [alike, Bool.and_eq_true, Statement.alike_iff_sorted_eq, ih, sorted,
            List.map_cons, List.cons.injEq]

end Dataflow
