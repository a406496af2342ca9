import Dataflow.Limits.Project
import Dataflow.Program.DecidableEq
import Dataflow.Proofs.Cursor.Program
import Dataflow.Proofs.Threshold

/-!
# Loaded limits

Limits that are taken from a configuration are the defaults with the values of the
configuration in their places, and they are checked after that.  So whatever a
configuration says, and in whatever format it says it, a program that is read under limits
taken from it has a bounded size, and no call of the parser on the way is nested as deep as
the largest depth that can be configured.
-/

namespace Dataflow

/-- The error for a configuration that lies at another path. -/
def LimitError.relocate (path : String) : LimitError → LimitError
  | .malformed _ => .malformed path
  | error => error

namespace Limits

/-- Every field admits its value. -/
structure Reasonable (limits : Limits) : Prop where
  inputSize : 1 ≤ limits.inputSize ∧ limits.inputSize ≤ maxInputSize
  tokenCount : 1 ≤ limits.tokenCount
  nestingDepth : 1 ≤ limits.nestingDepth ∧ limits.nestingDepth ≤ maxNestingDepth

theorem reasonable_default : Reasonable {} where
  inputSize := by decide
  tokenCount := by decide
  nestingDepth := by decide

/-- The fields are checked one after the other. -/
theorem validate_eq (limits : Limits) :
    validate limits =
      if ¬ (1 ≤ limits.inputSize ∧ limits.inputSize ≤ maxInputSize) then
        .error (.invalid .inputSize limits.inputSize)
      else if ¬ 1 ≤ limits.tokenCount then
        .error (.invalid .tokenCount limits.tokenCount)
      else if ¬ (1 ≤ limits.nestingDepth ∧ limits.nestingDepth ≤ maxNestingDepth) then
        .error (.invalid .nestingDepth limits.nestingDepth)
      else .ok limits := by
  have hinput : Field.inputSize.admits (limits.get .inputSize) =
      decide (1 ≤ limits.inputSize ∧ limits.inputSize ≤ maxInputSize) :=
    (Bool.decide_and _ _).symm
  have hcount : Field.tokenCount.admits (limits.get .tokenCount) =
      decide (1 ≤ limits.tokenCount) := rfl
  have hdepth : Field.nestingDepth.admits (limits.get .nestingDepth) =
      decide (1 ≤ limits.nestingDepth ∧ limits.nestingDepth ≤ maxNestingDepth) :=
    (Bool.decide_and _ _).symm
  rw [validate, Field.all, List.find?_cons, List.find?_cons, List.find?_cons, hinput, hcount,
    hdepth, List.find?_nil]
  by_cases hsize : 1 ≤ limits.inputSize ∧ limits.inputSize ≤ maxInputSize
  · by_cases htokens : 1 ≤ limits.tokenCount
    · by_cases hlevels : 1 ≤ limits.nestingDepth ∧ limits.nestingDepth ≤ maxNestingDepth
      · simp only [hsize, htokens, hlevels]
        simp
      · simp [hsize, htokens, hlevels, get]
    · simp [hsize, htokens, get]
  · simp [hsize, get]

theorem reasonable_of_validate {limits checked : Limits}
    (hvalidate : validate limits = .ok checked) : checked = limits ∧ checked.Reasonable := by
  rw [validate_eq] at hvalidate
  split at hvalidate
  · contradiction
  split at hvalidate
  · contradiction
  split at hvalidate
  · contradiction
  rename_i hinput hcount hdepth
  obtain rfl := Except.ok.inj hvalidate
  exact ⟨rfl, not_not.mp hinput, not_not.mp hcount, not_not.mp hdepth⟩

section

variable {read? : String → Option Overrides}

theorem ofText_of_read {text : String} {overrides : Overrides}
    (htext : read? text = some overrides) (origin : String) :
    ofText read? origin text = validate (({} : Limits).override overrides) := by
  rw [ofText, htext]

theorem reasonable_of_ofText {origin text : String} {limits : Limits}
    (hlimits : ofText read? origin text = .ok limits) : limits.Reasonable := by
  cases htext : read? text with
  | none =>
      rw [ofText, htext] at hlimits
      contradiction
  | some overrides =>
      rw [ofText_of_read htext] at hlimits
      exact (reasonable_of_validate hlimits).2

/-- A file with some text is read like the text, except for what an error says about where the
text was found. -/
theorem ofFile_file {content : ByteArray} {text : String}
    (hcontent : String.fromUTF8? content = some text) (path origin : String) :
    ofFile read? path (.file content) =
      (ofText read? origin text).mapError (LimitError.relocate path) := by
  simp only [ofFile, hcontent]
  cases htext : read? text with
  | none =>
      rw [ofText, ofText, htext]
      rfl
  | some overrides =>
      rw [ofText_of_read htext, ofText_of_read htext, validate_eq]
      split_ifs <;> rfl

theorem reasonable_of_ofFile {path : String} {file : ProjectFile} {limits : Limits}
    (hlimits : ofFile read? path file = .ok limits) : limits.Reasonable := by
  cases file with
  | missing =>
      obtain rfl := Except.ok.inj hlimits
      exact reasonable_default
  | directory => contradiction
  | file content =>
      cases hcontent : String.fromUTF8? content with
      | none =>
          simp only [ofFile, hcontent] at hlimits
          contradiction
      | some text =>
          simp only [ofFile, hcontent] at hlimits
          exact reasonable_of_ofText hlimits

end

/-- Whatever format the configurations have, loaded limits are the defaults with the values of
the configuration in their places, or the first of them that is out of its range is refused.  A
file is read like its text and a missing file like no values at all.  Under limits that either
way of loading them comes to, a source that is accepted has at most as many bytes as can be
configured, each statement that comes out needs a level below the largest that can be
configured, and so does every call of the parser for a statement, an assignment, a flow, a map
or a key. -/
theorem loaded_limits_bound (read? : String → Option Overrides) :
    (∀ origin text overrides, read? text = some overrides →
      ∀ limits : Limits, limits = { inputSize := overrides.inputSize.getD 10000000
                                    tokenCount := overrides.tokenCount.getD 100000
                                    nestingDepth := overrides.nestingDepth.getD 256 } →
        ofText read? origin text =
          if ¬ (1 ≤ limits.inputSize ∧ limits.inputSize ≤ 100000000) then
            .error (.invalid .inputSize limits.inputSize)
          else if ¬ 1 ≤ limits.tokenCount then
            .error (.invalid .tokenCount limits.tokenCount)
          else if ¬ (1 ≤ limits.nestingDepth ∧ limits.nestingDepth ≤ 512) then
            .error (.invalid .nestingDepth limits.nestingDepth)
          else .ok limits) ∧
    (∀ path content text, String.fromUTF8? content = some text →
      ofFile read? path (.file content) =
        (ofText read? "<inline>" text).mapError (LimitError.relocate path)) ∧
    (∀ path, ofFile read? path .missing = .ok {}) ∧
    ∀ limits : Limits, ((∃ text, ofText read? "<inline>" text = .ok limits) ∨
        ∃ path file, ofFile read? path file = .ok limits) →
      ∀ source program, Program.parse limits source = .ok program →
        source.utf8ByteSize ≤ 100000000 ∧
        (∀ statement ∈ program, statement.need < 512) ∧
        ∃ after, Scan.program (tokenize source) limits.nestingDepth .initial =
            some (.ok program, after) ∧
          (∀ statement ∈ program, ∃ call ∈ after.calls,
            call.Reads limits.nestingDepth (tokenize source) statement) ∧
          ∀ call ∈ after.calls, ∀ depth ∈ call.depth, depth < 512 := by
  refine ⟨?_, fun path content text hcontent => ofFile_file hcontent path "<inline>",
    fun path => rfl, ?_⟩
  · rintro origin text overrides htext limits rfl
    rw [ofText_of_read htext]
    exact validate_eq _
  · intro limits hloaded source program hparse
    have hreasonable : limits.Reasonable := by
      rcases hloaded with ⟨text, htext⟩ | ⟨path, file, hfile⟩
      · exact reasonable_of_ofText htext
      · exact reasonable_of_ofFile hfile
    have hlevels : limits.nestingDepth ≤ 512 := hreasonable.nestingDepth.2
    obtain ⟨⟨hsize, -⟩, hread⟩ := Program.parse_eq_ok_iff.mp hparse
    obtain ⟨after, hscan, hmade, hdepth⟩ := Scan.exists_calls_of_ofTokens hread
    refine ⟨Nat.le_trans hsize hreasonable.inputSize.2, fun statement hmem => ?_,
      after, hscan, hmade, fun call hcall depth hmem => ?_⟩
    · exact Nat.lt_of_lt_of_le ((Program.ofTokens_eq_ok_iff_need.mp hread).2 statement hmem) hlevels
    · exact Nat.lt_of_lt_of_le (hdepth call hcall depth hmem) hlevels

/-- A configuration that sets one limit, the file that holds it, one that sets it too high, and a
source that takes all the levels there are. -/
theorem loaded_limits_bound_six_levels :
    ofToml "<inline>" "[limits]\nmax_nesting_depth = 6" = .ok { nestingDepth := 6 } ∧
    ofProjectFile "project.toml" (.file "[limits]\nmax_nesting_depth = 6".toUTF8) =
      .ok { nestingDepth := 6 } ∧
    ofToml "<inline>" "[limits]\nmax_nesting_depth = 513" =
      .error (.invalid .nestingDepth 513) ∧
    ∃ statement : Statement, statement.need = 5 ∧ statement.need < 512 ∧
      ∃ after, Scan.program (tokenize "x = \x7b f ( a ) : b \x7d ;") 6 .initial =
          some (.ok [statement], after) ∧
        ∀ call ∈ after.calls, ∀ depth ∈ call.depth, depth < 512 := by
  obtain ⟨htoml, hfile, -, hbound⟩ := loaded_limits_bound Overrides.ofToml?
  have hsix : ofToml "<inline>" "[limits]\nmax_nesting_depth = 6" = .ok { nestingDepth := 6 } :=
    htoml "<inline>" _ { nestingDepth := some 6 } (by decide +kernel) _ rfl
  have hparse : Program.parse { nestingDepth := 6 } "x = \x7b f ( a ) : b \x7d ;" =
      .ok [.assign ⟨"x", none, .map
        [(.constructor "f" [.atom (.identifier "a")], .atom (.identifier "b"))]⟩] := by
    decide +kernel
  refine ⟨hsix, ?_, ?_, ?_⟩
  · have hcontent : String.fromUTF8? "[limits]\nmax_nesting_depth = 6".toUTF8 =
        some "[limits]\nmax_nesting_depth = 6" := by decide +kernel
    exact (hfile _ _ _ hcontent).trans (congrArg (Except.mapError _) hsix)
  · exact htoml "<inline>" _ { nestingDepth := some 513 } (by decide +kernel) _ rfl
  · obtain ⟨-, hneed, after, hscan, -, hdepth⟩ :=
      hbound _ (.inl ⟨_, hsix⟩) _ _ hparse
    exact ⟨_, by decide, hneed _ List.mem_cons_self, after, hscan, hdepth⟩

end Limits

end Dataflow
