import Dataflow.Limits.Project
import Dataflow.Program.DecidableEq
import Dataflow.Program.Json
import Dataflow.Program.Outline
import Dataflow.Syntax.Program
import Dataflow.Proofs.Grammar
import Dataflow.Proofs.Nesting
import Dataflow.Proofs.Reading.Pattern
import Dataflow.Proofs.Reading.Flow
import Dataflow.Proofs.Reading.Statement
import Dataflow.Proofs.Acceptance
import Dataflow.Proofs.Independence
import Dataflow.Proofs.Lexing
import Dataflow.Proofs.Spelling
import Dataflow.Proofs.RoundTrip
import Dataflow.Proofs.Gating
import Dataflow.Proofs.Blame.Located
import Dataflow.Proofs.Blame.Pattern
import Dataflow.Proofs.Blame.Settings
import Dataflow.Proofs.Blame.Flow
import Dataflow.Proofs.Blame.Statement
import Dataflow.Proofs.Blame.Program
import Dataflow.Proofs.Threshold
import Dataflow.Proofs.Levels
import Dataflow.Proofs.LimitOrder
import Dataflow.Proofs.Excerpt
import Dataflow.Proofs.Arrows
import Dataflow.Proofs.JsonText
import Dataflow.Proofs.Serialization
import Dataflow.Proofs.OutlineText
import Dataflow.Proofs.Rendering
import Dataflow.Proofs.Raising
import Dataflow.Proofs.Attribution
import Dataflow.Proofs.Renaming.Program
import Dataflow.Proofs.Layout
import Dataflow.Proofs.Stepping
import Dataflow.Proofs.Brackets.Basic
import Dataflow.Proofs.Brackets.Maps
import Dataflow.Proofs.Places
import Dataflow.Proofs.Slots
import Dataflow.Proofs.Pipeline
import Dataflow.Proofs.Sorting
import Dataflow.Proofs.Components.Hosting
import Dataflow.Proofs.Components.Reading
import Dataflow.Proofs.Components.Program
import Dataflow.Proofs.Components.Overwriting
import Dataflow.Proofs.Components.Likeness
import Dataflow.Proofs.Cursor.Basic
import Dataflow.Proofs.Cursor.Scan
import Dataflow.Proofs.Cursor.Methods
import Dataflow.Proofs.Cursor.Yields
import Dataflow.Proofs.Cursor.Parts
import Dataflow.Proofs.Cursor.Flow
import Dataflow.Proofs.Cursor.Statement
import Dataflow.Proofs.Cursor.Program
import Dataflow.Proofs.Cursor.Locality
import Dataflow.Proofs.Cursor.Keys
import Dataflow.Proofs.Loading
