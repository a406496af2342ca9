/-!
# Limits

How large a source may be, how many tokens it may have and how deep its
expressions may nest.  Any numbers can be used as limits; `Limits.validate` says
which of them are reasonable to configure.  A configuration is a text, and what it
sets is for its format to say: limits are loaded with any reader for such texts.
-/

namespace Dataflow

structure Limits where
  /-- The most bytes of UTF-8 that a source may have. -/
  inputSize : Nat := 10000000
  /-- The most tokens that a source may have. -/
  tokenCount : Nat := 100000
  /-- The nesting level that is refused first. -/
  nestingDepth : Nat := 256
  deriving DecidableEq, Inhabited

namespace Limits

/-- The largest nesting depth that is reasonable to configure. -/
def maxNestingDepth : Nat := 512

/-- The largest input size that is reasonable to configure. -/
def maxInputSize : Nat := 100000000

/-- One of the three limits. -/
inductive Field where
  | inputSize
  | tokenCount
  | nestingDepth
  deriving DecidableEq, Inhabited

namespace Field

/-- The fields in the order in which they are checked. -/
def all : List Field := [.inputSize, .tokenCount, .nestingDepth]

/-- The key under which a field is configured. -/
def name : Field → String
  | .inputSize => "max_input_size"
  | .tokenCount => "max_token_count"
  | .nestingDepth => "max_nesting_depth"

/-- Every limit is positive, and two of them have a ceiling. -/
def admits : Field → Nat → Bool
  | .inputSize, value => 1 ≤ value && value ≤ maxInputSize
  | .tokenCount, value => 1 ≤ value
  | .nestingDepth, value => 1 ≤ value && value ≤ maxNestingDepth

end Field

def get (limits : Limits) : Field → Nat
  | .inputSize => limits.inputSize
  | .tokenCount => limits.tokenCount
  | .nestingDepth => limits.nestingDepth

/-- Values for some of the limits. -/
structure Overrides where
  inputSize : Option Nat := none
  tokenCount : Option Nat := none
  nestingDepth : Option Nat := none
  deriving DecidableEq, Inhabited

/-- The limits with every value that is present put in its place. -/
def override (limits : Limits) (overrides : Overrides) : Limits where
  inputSize := overrides.inputSize.getD limits.inputSize
  tokenCount := overrides.tokenCount.getD limits.tokenCount
  nestingDepth := overrides.nestingDepth.getD limits.nestingDepth

end Limits

/-- Why limits could not be taken from a configuration. -/
inductive LimitError where
  /-- A limit has a value that is not reasonable. -/
  | invalid (field : Limits.Field) (value : Nat)
  /-- The text at `origin` is not a configuration. -/
  | malformed (origin : String)
  /-- The file at `origin` holds no text. -/
  | unreadable (origin : String)
  deriving DecidableEq

/-- The message for an error.  What the reader of the configuration or the
system has to say about it is `detail`. -/
def LimitError.message (detail : String) : LimitError → String
  | .invalid field value =>
    s!"invalid limit '{field.name}': {value} (must be positive and reasonable)"
  | .malformed origin => s!"failed to parse {origin}: {detail}"
  | .unreadable origin => s!"failed to read {origin}: {detail}"

namespace Limits

/-- The limits themselves if every field admits its value, and otherwise the
first field that does not. -/
def validate (limits : Limits) : Except LimitError Limits :=
  match Field.all.find? fun field => !field.admits (limits.get field) with
  | none => .ok limits
  | some field => .error (.invalid field (limits.get field))

/-- What lies at the path of a configuration. -/
inductive ProjectFile where
  | missing
  | directory
  | file (content : ByteArray)

section

variable (read? : String → Option Overrides)

/-- The limits of the configuration at `origin`: the defaults with the values that its
text sets in their places, if these are reasonable. -/
def ofText (origin text : String) : Except LimitError Limits :=
  match read? text with
  | none => .error (.malformed origin)
  | some overrides => validate (({} : Limits).override overrides)

/-- The limits of a project whose configuration lies at `path`.  Without one they
are the defaults. -/
def ofFile (path : String) : ProjectFile → Except LimitError Limits
  | .missing => .ok {}
  | .directory => .error (.unreadable path)
  | .file content =>
    match String.fromUTF8? content with
    | none => .error (.unreadable path)
    | some text => ofText read? path text

end

end Limits

end Dataflow
