import Dataflow.Limits.Basic
import Dataflow.Toml.Document

/-!
# Limits of a project

A project can set limits in the `limits` table of its configuration, which is
written in TOML.  Limits that it does not set keep their defaults, and the limits
that result have to be reasonable.
-/

namespace Dataflow.Limits

namespace Overrides

/-- The number that a table sets for a field, if it sets one.  Anything else in
its place is refused. -/
def ofEntry? (entries : Toml.Entries) (field : Field) : Option (Option Nat) :=
  match entries.lookup field.name with
  | none => some none
  | some item => item.natural?.map some

/-- The values that a table sets. -/
def ofEntries? (entries : Toml.Entries) : Option Overrides := do
  return { inputSize := ← ofEntry? entries .inputSize
           tokenCount := ← ofEntry? entries .tokenCount
           nestingDepth := ← ofEntry? entries .nestingDepth }

/-- The values that an item sets: a table by name, and an array by the order of
the fields.  A moment counts as a table that sets nothing. -/
def ofItem? : Toml.Item → Option Overrides
  | .table _ entries => ofEntries? entries
  | .inlineTable entries => ofEntries? entries
  | .array (inputSize :: tokenCount :: nestingDepth :: _) => do
    return { inputSize := ← inputSize.natural?
             tokenCount := ← tokenCount.natural?
             nestingDepth := ← nestingDepth.natural? }
  | .scalar (.moment _) => some {}
  | _ => none

/-- The values that a configuration sets, if it is one. -/
def ofToml? (text : String) : Option Overrides := do
  match (← Toml.parse? text).lookup "limits" with
  | none => return {}
  | some item => ofItem? item

end Overrides

/-- The limits of the configuration at `origin`. -/
def ofToml (origin text : String) : Except LimitError Limits :=
  ofText Overrides.ofToml? origin text

/-- The limits of a project with its configuration at `path`. -/
def ofProjectFile (path : String) (file : ProjectFile) : Except LimitError Limits :=
  ofFile Overrides.ofToml? path file

end Dataflow.Limits
