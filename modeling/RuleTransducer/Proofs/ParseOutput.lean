import RuleTransducer.Proofs.Fronts
import RuleTransducer.Proofs.JsonText

/-! The output of a run as a document. The entries on the inputs are texts in arrays and objects,
nested four deep. So whatever characters the inputs and the outputs of the rules have, what is
printed is read as one document, and it holds the outcomes as they are. -/

namespace RuleTransducer

/-- What an entry tells of an outcome: a tag, and the output, the outputs or the reason. -/
inductive Outcome.Tagged : Outcome Text → String → Json → Prop
  | success (output : Text) : Tagged (success output) "ok" (.text output)
  | ambiguous (outputs : List Text) :
    Tagged (ambiguous outputs) "ambiguous" (.array (outputs.map .text))
  | failure (reason : Text) : Tagged (failure reason) "error" (.text reason)

namespace Command

/-- The entry on an input and its outcome. -/
def IsEntry (g : Graph Text) (input : String) (entry : Json) : Prop :=
  ∃ tag content, (g.parse input).Tagged tag content ∧
    entry = .object [("input", .text input), ("result", .array [.text tag, content])]

theorem isEntry_resultJson (g : Graph Text) (input : String) :
    IsEntry g input (resultJson (input, g.parse input)) := by
  unfold IsEntry resultJson
  cases g.parse input with
  | success output => exact ⟨_, _, .success output, rfl⟩
  | ambiguous outputs => exact ⟨_, _, .ambiguous outputs, rfl⟩
  | failure reason => exact ⟨_, _, .failure reason, rfl⟩

/-- An entry has texts in two arrays in an object at most. -/
theorem isPlain_resultJson (depth : ℕ) (result : Text × Outcome Text) :
    (resultJson result).IsPlain (depth + 3) := by
  have htext (s : Text) {depth : ℕ} : (Json.text s).IsPlain depth := .text depth s
  have houtcome : (outcomeJson result.2).IsPlain (depth + 2) := by
    refine .array (List.forall_mem_cons.mpr ⟨htext _, List.forall_mem_singleton.mpr ?_⟩)
    cases result.2 with
    | success output => exact htext output
    | ambiguous outputs => exact .array (List.forall_mem_map.mpr fun output _ => htext output)
    | failure reason => exact htext reason
  refine .object ?_ (show (["input", "result"] : List Text).Nodup by decide)
  exact List.forall_mem_cons.mpr ⟨htext result.1, List.forall_mem_singleton.mpr houtcome⟩

/-- The output of a run on a graph of compiled rules that is asked for as JSON is one document. It
is an array with one entry for each input, in order, with the input as it is and the tag and the
content of its outcome. -/
theorem decode_parse_report {read : String → FileContent} {path : String} {g : Graph Text}
    (h : Builds (read path) g) (level : LogLevel) {inputs : List String}
    (hscalar : g.IsScalarOn inputs) :
    ∃ entries,
      Json.decode (((Job.parse path inputs true).report level read).stdout : Text).toList =
        .ok (.array entries) ∧
      List.Forall₂ (IsEntry g) inputs entries := by
  refine ⟨(outcomesOn g inputs).map resultJson, ?_, ?_⟩
  · have hplain : (Json.array ((outcomesOn g inputs).map resultJson)).IsPlain Json.nesting := by
      refine .array (List.forall_mem_map.mpr fun result _ => ?_)
      exact isPlain_resultJson _ result
    have hstdout : (((Job.parse path inputs true).report level read).stdout : Text) =
        (Json.array ((outcomesOn g inputs).map resultJson)).indented ++ "\n" := by
      have houtput := output_parse_report_of_isScalarOn h level inputs true hscalar
      rw [resultLines, if_pos rfl] at houtput
      obtain ⟨printed, hprinted, heq⟩ := List.map_eq_singleton_iff.mp houtput
      rw [Report.stdout, hprinted, ← heq, ← Text.ofString_append]
      simp [lineText]
    rw [hstdout]
    exact Json.decodeWithin_indented hplain
  · rw [outcomesOn, List.map_map, List.forall₂_map_right_iff, List.forall₂_same]
    exact fun input _ => isEntry_resultJson g input

/-- Two rules for one input, of which one writes a quote, a backslash, a line end, a control
character and a code point beyond the basic plane. -/
def escapingParts : List Json :=
  [.array [.array [.text "a", .text "\"\\\n\x01😀"]], .array [.text "a"]]

/-- The rules in a file, on one line. -/
def escapingFile : FileContent :=
  .ok (Text.Utf8.encode "[[[\"a\",\"\\\"\\\\\\n\\u0001😀\"]],[\"a\"]]".toList)

theorem holds_escapingFile : RulesFile.Holds escapingFile (.array escapingParts) := by
  refine RulesFile.holds_encode ?_
  simp only [String.reduceToList]
  rfl

/-- Both outputs of the first input are in the document, and the second input is told to fail. -/
theorem decode_parse_report_escapingFile :
    Builds escapingFile (fileGraph escapingParts) ∧
      (fileGraph escapingParts).IsScalarOn ["a", "\t\"é"] ∧
      Json.decode (((Job.parse "rules.json" ["a", "\t\"é"] true).report .warning
          fun _ => escapingFile).stdout : Text).toList =
        .ok (.array [
          .object [("input", .text "a"),
            ("result", .array [.text "ambiguous", .array [.text "\"\\\n\x01😀", .text "a"]])],
          .object [("input", .text "\t\"é"),
            ("result", .array [.text "error", .text "not possible"])]]) := by
  let read : String → FileContent := fun _ => escapingFile
  have hbuilds : Builds (read "rules.json") (fileGraph escapingParts) :=
    (builds_iff holds_escapingFile _).mpr rfl
  have hscalar : (fileGraph escapingParts).IsScalarOn ["a", "\t\"é"] := by decide +kernel
  obtain ⟨entries, hdecode, hentries⟩ := decode_parse_report hbuilds .warning hscalar
  have hparse : (fileGraph escapingParts).parse "a" = .ambiguous ["\"\\\n\x01😀", "a"] := by
    decide +kernel
  have hparse' : (fileGraph escapingParts).parse "\t\"é" = .failure "not possible" := by
    decide +kernel
  refine ⟨hbuilds, hscalar, hdecode.trans ?_⟩
  cases hentries with
  | cons hfirst hrest =>
    cases hrest with
    | cons hsecond hnone =>
      cases hnone
      obtain ⟨tag, content, htagged, rfl⟩ := hfirst
      obtain ⟨tag', content', htagged', rfl⟩ := hsecond
      rw [hparse] at htagged
      rw [hparse'] at htagged'
      cases htagged
      cases htagged'
      rfl

end Command

end RuleTransducer
