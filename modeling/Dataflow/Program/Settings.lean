/-!
# Atoms and settings

Atoms are the smallest expressions.  An atom can be an expression of its own, the
key of a map entry, or the value of a property.  The settings of a configured
component are properties with distinct names, in the order in which the names were
first given.  Setting a property anew keeps its place and replaces its value.  Two
settings are alike when they give the same value to every name, whatever their order.
-/

namespace Dataflow

/-- A name, or a numeral kept as its source text. -/
inductive Atom where
  | identifier (name : String)
  | literal (text : String)
  deriving DecidableEq, Inhabited

structure Settings where
  entries : List (String × Atom)
  nodup : (entries.map Prod.fst).Nodup

namespace Settings

@[ext]
theorem ext {left right : Settings} (hentries : left.entries = right.entries) :
    left = right := by
  cases left
  cases right
  cases hentries
  rfl

instance : DecidableEq Settings := fun left right =>
  decidable_of_iff (left.entries = right.entries) ⟨ext, congrArg entries⟩

def empty : Settings := ⟨[], List.nodup_nil⟩

instance : Inhabited Settings := ⟨empty⟩

/-- The names in order. -/
def names (settings : Settings) : List String :=
  settings.entries.map Prod.fst

/-- The value of a name. -/
def get? (settings : Settings) (name : String) : Option Atom :=
  settings.entries.lookup name

/-- A property list with one property set: in its place if the name is there,
and at the end otherwise. -/
def setEntry (name : String) (value : Atom) :
    List (String × Atom) → List (String × Atom)
  | [] => [(name, value)]
  | entry :: rest =>
    if entry.1 = name then (name, value) :: rest
    else entry :: setEntry name value rest

theorem map_fst_setEntry (name : String) (value : Atom) (entries : List (String × Atom)) :
    (setEntry name value entries).map Prod.fst =
      if name ∈ entries.map Prod.fst then entries.map Prod.fst
      else entries.map Prod.fst ++ [name] := by
  induction entries with
  | nil => simp [setEntry]
  | cons entry rest ih =>
    by_cases hname : entry.1 = name
    · simp [setEntry, hname]
    · have hne : ¬ name = entry.1 := fun heq => hname heq.symm
      simp only [setEntry, if_neg hname, List.map_cons, ih, List.mem_cons, hne, false_or]
      split <;> simp

theorem nodup_setEntry (name : String) (value : Atom) {entries : List (String × Atom)}
    (hnodup : (entries.map Prod.fst).Nodup) :
    ((setEntry name value entries).map Prod.fst).Nodup := by
  rw [map_fst_setEntry]
  split
  · exact hnodup
  · next hnew =>
    refine List.nodup_append.mpr ⟨hnodup, by simp, ?_⟩
    rintro other hother _ hmem rfl
    exact hnew (List.mem_singleton.mp hmem ▸ hother)

/-- The settings with one property set. -/
def insert (settings : Settings) (name : String) (value : Atom) : Settings :=
  ⟨setEntry name value settings.entries, nodup_setEntry name value settings.nodup⟩

/-- The settings with some properties set one after the other. -/
def insertAll (settings : Settings) (properties : List (String × Atom)) : Settings :=
  properties.foldl (fun settings property => settings.insert property.1 property.2) settings

/-- The settings that a list of properties gives. -/
def ofList (properties : List (String × Atom)) : Settings :=
  empty.insertAll properties

@[simp]
theorem insertAll_nil (settings : Settings) : settings.insertAll [] = settings := rfl

@[simp]
theorem insertAll_cons (settings : Settings) (property : String × Atom)
    (properties : List (String × Atom)) :
    settings.insertAll (property :: properties) =
      (settings.insert property.1 property.2).insertAll properties := rfl

theorem insertAll_append (settings : Settings) (front rest : List (String × Atom)) :
    settings.insertAll (front ++ rest) = (settings.insertAll front).insertAll rest :=
  List.foldl_append

/-- Equally many properties, and every property of the first in the second. -/
def alike (left right : Settings) : Bool :=
  left.entries.length = right.entries.length &&
    left.entries.all fun entry => right.get? entry.1 = some entry.2

end Settings

end Dataflow
