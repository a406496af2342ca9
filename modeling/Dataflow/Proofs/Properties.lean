import Dataflow.Program.Settings
import Mathlib.Data.List.Induction

/-!
# Settings of a list of properties

Properties may be given again.  What a list of properties amounts to is then
decided name by name: the names stand in the order in which they first occur,
and each has the value that it was given last.  This module proves that setting
the properties one after the other gives exactly these settings.
-/

namespace Dataflow.Settings

/-- The settings hold the names of the properties by first occurrence, each with
the value of its last occurrence. -/
def Collects (settings : Settings) (properties : List (String × Atom)) : Prop :=
  settings.names = (properties.map Prod.fst).eraseDups ∧
    ∀ name, settings.get? name = properties.reverse.lookup name

theorem lookup_cons_eq (name : String) (entry : String × Atom)
    (entries : List (String × Atom)) :
    (entry :: entries).lookup name =
      if name = entry.1 then some entry.2 else entries.lookup name := by
  rw [List.lookup_cons]
  by_cases hname : name = entry.1
  · simp [hname]
  · rw [beq_false_of_ne hname, if_neg hname]

theorem lookup_eq_none {name : String} {entries : List (String × Atom)}
    (hfresh : name ∉ entries.map Prod.fst) : entries.lookup name = none := by
  rw [List.lookup_eq_none_iff]
  intro entry hentry
  rw [bne_iff_ne]
  rintro rfl
  exact hfresh (List.mem_map_of_mem hentry)

theorem lookup_setEntry (name other : String) (value : Atom)
    (entries : List (String × Atom)) :
    (setEntry name value entries).lookup other =
      if other = name then some value else entries.lookup other := by
  induction entries with
  | nil => exact lookup_cons_eq other (name, value) []
  | cons entry rest ih =>
      by_cases hname : entry.1 = name
      · rw [setEntry, if_pos hname, lookup_cons_eq, lookup_cons_eq, hname]
        by_cases hother : other = name
        · rw [if_pos hother, if_pos hother]
        · rw [if_neg hother, if_neg hother, if_neg hother]
      · rw [setEntry, if_neg hname, lookup_cons_eq, lookup_cons_eq, ih]
        by_cases hother : other = entry.1
        · have hne : other ≠ name := fun heq => hname (hother.symm.trans heq)
          rw [if_pos hother, if_neg hne, if_pos hother]
        · rw [if_neg hother, if_neg hother]

theorem get?_insert (settings : Settings) (name other : String) (value : Atom) :
    (settings.insert name value).get? other =
      if other = name then some value else settings.get? other :=
  lookup_setEntry name other value settings.entries

theorem names_insert (settings : Settings) (name : String) (value : Atom) :
    (settings.insert name value).names =
      if name ∈ settings.names then settings.names else settings.names ++ [name] :=
  map_fst_setEntry name value settings.entries

theorem eraseDups_append_singleton (names : List String) (name : String) :
    (names ++ [name]).eraseDups =
      if name ∈ names then names.eraseDups else names.eraseDups ++ [name] := by
  rw [List.eraseDups_append]
  by_cases hmem : name ∈ names
  · simp [List.removeAll, hmem]
  · simp [List.removeAll, List.eraseDups_cons, hmem]

theorem ofList_append (properties : List (String × Atom)) (property : String × Atom) :
    ofList (properties ++ [property]) =
      (ofList properties).insert property.1 property.2 :=
  insertAll_append empty properties [property]

theorem setEntry_of_fresh {name : String} (value : Atom) {entries : List (String × Atom)}
    (hfresh : name ∉ entries.map Prod.fst) :
    setEntry name value entries = entries ++ [(name, value)] := by
  induction entries with
  | nil => rfl
  | cons entry rest ih =>
      rw [List.map_cons, List.mem_cons, not_or] at hfresh
      rw [setEntry, if_neg (Ne.symm hfresh.1), ih hfresh.2, List.cons_append]

theorem mem_of_mem_setEntry {name : String} {value : Atom} {entry : String × Atom}
    {entries : List (String × Atom)} (hmem : entry ∈ setEntry name value entries) :
    entry = (name, value) ∨ entry ∈ entries := by
  induction entries with
  | nil => exact .inl (List.mem_singleton.mp hmem)
  | cons first rest ih =>
      by_cases hname : first.1 = name
      · rw [setEntry, if_pos hname] at hmem
        exact (List.mem_cons.mp hmem).imp_right (List.mem_cons_of_mem _)
      · rw [setEntry, if_neg hname] at hmem
        rcases List.mem_cons.mp hmem with rfl | hmem
        · exact .inr List.mem_cons_self
        · exact (ih hmem).imp_right (List.mem_cons_of_mem _)

/-- Properties with distinct names are kept as they are. -/
theorem entries_ofList {properties : List (String × Atom)}
    (hnodup : (properties.map Prod.fst).Nodup) : (ofList properties).entries = properties := by
  induction properties using List.reverseRecOn with
  | nil => rfl
  | append_singleton properties property ih =>
      rw [List.map_append, List.nodup_append] at hnodup
      obtain ⟨hproperties, -, hfresh⟩ := hnodup
      have hnew : property.1 ∉ properties.map Prod.fst :=
        fun hmem => hfresh _ hmem _ List.mem_cons_self rfl
      rw [ofList_append]
      change setEntry property.1 property.2 (ofList properties).entries = _
      rw [ih hproperties, setEntry_of_fresh property.2 hnew]

theorem ofList_entries (settings : Settings) : ofList settings.entries = settings :=
  ext (entries_ofList settings.nodup)

theorem mem_of_mem_entries_ofList {properties : List (String × Atom)}
    {entry : String × Atom} (hmem : entry ∈ (ofList properties).entries) :
    entry ∈ properties := by
  induction properties using List.reverseRecOn with
  | nil => contradiction
  | append_singleton properties property ih =>
      rw [ofList_append] at hmem
      rw [List.mem_append, List.mem_singleton]
      exact (mem_of_mem_setEntry hmem).symm.imp_left ih

/-- Setting the properties one after the other collects them. -/
theorem collects_ofList (properties : List (String × Atom)) :
    (ofList properties).Collects properties := by
  induction properties using List.reverseRecOn with
  | nil => exact ⟨rfl, fun _ => rfl⟩
  | append_singleton properties property ih =>
      obtain ⟨hnames, hvalues⟩ := ih
      constructor
      · rw [ofList_append, names_insert, hnames, List.map_append, List.map_singleton,
          eraseDups_append_singleton]
        simp only [List.mem_eraseDups]
      · intro name
        rw [ofList_append, get?_insert, hvalues, List.reverse_append,
          List.reverse_singleton, List.singleton_append, lookup_cons_eq]

/-- Entries with distinct names are determined by the names and the value of
each. -/
theorem eq_of_lookup_eq {left right : List (String × Atom)}
    (hnodup : (left.map Prod.fst).Nodup)
    (hnames : left.map Prod.fst = right.map Prod.fst)
    (hvalues : ∀ name, left.lookup name = right.lookup name) : left = right := by
  induction left generalizing right with
  | nil => exact (List.map_eq_nil_iff.mp hnames.symm).symm
  | cons entry rest ih =>
      cases right with
      | nil => contradiction
      | cons other others =>
          simp only [List.map_cons, List.cons.injEq] at hnames
          obtain ⟨hname, hnames⟩ := hnames
          rw [List.map_cons, List.nodup_cons] at hnodup
          have hhead : entry.2 = other.2 := by
            have := hvalues entry.1
            rw [lookup_cons_eq, lookup_cons_eq, if_pos rfl, if_pos hname] at this
            exact Option.some.inj this
          have htail : rest = others := by
            refine ih hnodup.2 hnames fun name => ?_
            by_cases heq : name = entry.1
            · have hfresh : name ∉ rest.map Prod.fst := heq ▸ hnodup.1
              rw [lookup_eq_none hfresh, lookup_eq_none (hnames ▸ hfresh)]
            · have := hvalues name
              rwa [lookup_cons_eq, lookup_cons_eq, if_neg heq, if_neg (hname ▸ heq)] at this
          rw [htail, Prod.ext hname hhead]

/-- What a list of properties amounts to is unique. -/
theorem collects_iff {settings : Settings} {properties : List (String × Atom)} :
    settings.Collects properties ↔ settings = ofList properties := by
  constructor
  · rintro ⟨hnames, hvalues⟩
    obtain ⟨hnames', hvalues'⟩ := collects_ofList properties
    apply ext
    apply eq_of_lookup_eq settings.nodup (hnames.trans hnames'.symm)
    intro name
    exact (hvalues name).trans (hvalues' name).symm
  · rintro rfl
    exact collects_ofList properties

end Dataflow.Settings
