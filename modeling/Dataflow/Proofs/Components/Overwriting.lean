import Dataflow.Proofs.Components.Program

/-!
# Properties that are given again

A component may be given a property more than once.  Wherever it stands in a program,
its settings then hold each name once, in the order of the first occurrences, with the
value of the last occurrence, and giving each name once, in this order and with this
value, is the same program.
-/

namespace Dataflow

namespace Settings

/-- Each name once, where it is first given, with the value that it is given last. -/
def lastValues (properties : List (String × Atom)) : List (String × Atom) :=
  (properties.map Prod.fst).eraseDups.filterMap fun name =>
    (properties.reverse.lookup name).map fun value => (name, value)

/-- Entries with distinct names are what looking up their names gives. -/
theorem filterMap_lookup {entries : List (String × Atom)}
    (hnodup : (entries.map Prod.fst).Nodup) :
    ((entries.map Prod.fst).filterMap fun name =>
      (entries.lookup name).map fun value => (name, value)) = entries := by
  induction entries with
  | nil => rfl
  | cons entry rest ih =>
      rw [List.map_cons, List.nodup_cons] at hnodup
      have hhead : (entry :: rest).lookup entry.1 = some entry.2 := by
        rw [lookup_cons_eq, if_pos rfl]
      have htail : ∀ name ∈ rest.map Prod.fst,
          ((entry :: rest).lookup name).map (fun value => (name, value)) =
            (rest.lookup name).map fun value => (name, value) := by
        intro name hmem
        have hne : name ≠ entry.1 := fun heq => hnodup.1 (heq ▸ hmem)
        rw [lookup_cons_eq, if_neg hne]
      rw [List.map_cons, List.filterMap_cons, hhead, List.filterMap_congr htail, ih hnodup.2]
      rfl

theorem entries_ofList_eq_lastValues (properties : List (String × Atom)) :
    (ofList properties).entries = lastValues properties := by
  obtain ⟨hnames, hvalues⟩ := collects_ofList properties
  have hentries := filterMap_lookup (ofList properties).nodup
  rw [lastValues, ← hnames]
  simp only [← hvalues]
  exact hentries.symm

/-- Giving each name once, with its last value, gives the same settings. -/
theorem ofList_lastValues (properties : List (String × Atom)) :
    ofList (lastValues properties) = ofList properties := by
  rw [← entries_ofList_eq_lastValues, ofList_entries]

end Settings

namespace Program

/-- The component that these tokens spell stands in this place of the program with
these settings: with any other settings, the tokens spell the program that has these in
the same place.  Giving each of its properties once is the same program. -/
structure Settles (limit : Nat) (program : Program) (place : Place) (before after : List Token)
    (name : String) (properties : List (String × Atom)) (settings : Settings) : Prop where
  stands : program = place.fill (.config name settings)
  hosts : Hosts Derives before name after place.fill
  distinct : settings.names.Nodup
  names : settings.names = (properties.map Prod.fst).eraseDups
  values : ∀ property, settings.get? property = properties.reverse.lookup property
  once :
    ofTokens limit (before ++ componentTokens name (Settings.lastValues properties) ++ after) =
      .ok program

theorem settles_of_hosts {limit : Nat} {tokens before after : List Token} {name : String}
    {place : Place} {properties : List (String × Atom)}
    (hhosts : Hosts Derives before name after place.fill)
    (hread : ofTokens limit tokens = .ok (place.fill (.config name (.ofList properties)))) :
    Settles limit (place.fill (.config name (.ofList properties))) place before after name
      properties (.ofList properties) := by
  obtain ⟨hnames, hvalues⟩ := Settings.collects_ofList properties
  refine ⟨rfl, hhosts, (Settings.ofList properties).nodup, hnames, hvalues, ?_⟩
  rw [ofTokens_of_hosts hhosts hread, Settings.ofList_lastValues]

/-- Every component of a program is spelled in its tokens, every component that its
tokens spell with a property stands in the program, and in both cases its settings are
those of a map in which the last value of a name counts and its first position. -/
theorem ofTokens_component {limit : Nat} {tokens : List Token} {program : Program}
    (hread : ofTokens limit tokens = .ok program) :
    (∀ (place : Place) (name : String) (settings : Settings),
      program = place.fill (.config name settings) →
        ∃ before properties after, tokens = before ++ componentTokens name properties ++ after ∧
          Settles limit program place before after name properties settings) ∧
    ∀ (before after : List Token) (name : String) (property : String × Atom)
      (properties : List (String × Atom)),
      tokens = before ++ componentTokens name (property :: properties) ++ after →
        ∃ place settings,
          Settles limit program place before after name (property :: properties) settings := by
  have hderives := (ofTokens_eq_ok_iff_derives.mp hread).1
  constructor
  · intro place name settings hprogram
    cases hderives.componentIn hprogram with
    | @intro before inner after htokens hsettings hhosts =>
        obtain ⟨properties, rfl, rfl⟩ := hsettings.exists_properties
        refine ⟨before, properties, after, by simp [htokens, componentTokens], ?_⟩
        rw [hprogram] at hread ⊢
        exact settles_of_hosts hhosts hread
  · rintro before after name property properties rfl
    obtain ⟨place, rfl, hhosts⟩ := hderives.exists_place
    exact ⟨place, _, settles_of_hosts hhosts hread⟩

/-- A property that is given again after another one, in a component that is the value
of a map entry, keeps its place and takes its last value. -/
theorem ofTokens_component_repeated :
    ofTokens 9 (tokenize "x = \x7b 1 : f ( a = 1 , b = 2 , a = c ) \x7d -> g ;") =
        .ok [.assign ⟨"x", none, .flow [.map [(.atom (.literal "1"), .config "f" (.ofList
          [("a", .identifier "c"), ("b", .literal "2")]))], .atom (.identifier "g")]⟩] ∧
      ofTokens 9 (tokenize "x = \x7b 1 : f ( a = c , b = 2 ) \x7d -> g ;") =
        .ok [.assign ⟨"x", none, .flow [.map [(.atom (.literal "1"), .config "f" (.ofList
          [("a", .identifier "c"), ("b", .literal "2")]))], .atom (.identifier "g")]⟩] := by
  have hread : ofTokens 9 (tokenize "x = \x7b 1 : f ( a = 1 , b = 2 , a = c ) \x7d -> g ;") =
      .ok [.assign ⟨"x", none, .flow [.map [(.atom (.literal "1"), .config "f" (.ofList
        [("a", .identifier "c"), ("b", .literal "2")]))], .atom (.identifier "g")]⟩] := by
    decide +kernel
  have htokens : tokenize "x = \x7b 1 : f ( a = 1 , b = 2 , a = c ) \x7d -> g ;" =
      tokenize "x = \x7b 1 :" ++ componentTokens "f"
        [("a", .literal "1"), ("b", .literal "2"), ("a", .identifier "c")] ++
          tokenize "\x7d -> g ;" := by
    decide +kernel
  obtain ⟨place, settings, hsettles⟩ := (ofTokens_component hread).2 _ _ _ _ _ htokens
  have honce : tokenize "x = \x7b 1 : f ( a = c , b = 2 ) \x7d -> g ;" =
      tokenize "x = \x7b 1 :" ++ componentTokens "f" (Settings.lastValues
        [("a", .literal "1"), ("b", .literal "2"), ("a", .identifier "c")]) ++
          tokenize "\x7d -> g ;" := by
    decide +kernel
  rw [honce]
  exact ⟨hread, hsettles.once⟩

end Program

end Dataflow
