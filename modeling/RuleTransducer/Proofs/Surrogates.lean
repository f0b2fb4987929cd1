import RuleTransducer.Api.Service
import RuleTransducer.Command.Run
import RuleTransducer.Proofs.Admission

/-! Surrogates in outputs. An escape in a rules file or in a request can put a surrogate into what a
rule writes, and then neither the command line can print the output nor the service can send it.
Rules that write none give no output with one; and where no output has one, neither do the lines,
the entries and the results on the inputs. -/

namespace RuleTransducer

/-! ### Texts and documents -/

/-- A text of one surrogate. -/
def Text.loneSurrogate : Text := .singleton (.surrogate ⟨0, by decide⟩)

theorem Text.isScalar_join (texts : List Text) : (join texts).isScalar = texts.all isScalar := by
  induction texts with
  | nil => rfl
  | cons s texts ih => rw [join_cons, isScalar_append, ih, List.all_cons]

theorem Text.isScalar_intercalate {between : Text} (h : between.isScalar = true)
    (texts : List Text) : (intercalate between texts).isScalar = texts.all isScalar := by
  rw [intercalate, isScalar_join]
  induction texts with
  | nil => rfl
  | cons s texts ih =>
    cases texts with
    | nil => rfl
    | cons t texts =>
      rw [List.intersperse_cons_cons, List.all_cons, List.all_cons, h, Bool.true_and, ih,
        ← List.all_cons]

namespace Json

/-- A code point inside a quoted text is written with characters, or as it is. -/
theorem all_escapedCodePoint (c : CodePoint) :
    (escapedCodePoint c).all CodePoint.isScalar = c.isScalar := by
  fun_cases escapedCodePoint c with
  | case8 _ _ _ _ _ _ _ hcontrol =>
    have hscalar : c.isScalar = true := by
      cases c with
      | char c => rfl
      | surrogate offset =>
        have hle : 0xD800 ≤ (CodePoint.surrogate offset).toNat := Nat.le_add_right _ _
        omega
    simp [hscalar]
  | case9 => simp
  | _ =>
    subst_vars
    rfl

theorem all_quotedText (s : List CodePoint) :
    (quotedText s).all CodePoint.isScalar = s.all CodePoint.isScalar := by
  have hescaped :
      (s.flatMap escapedCodePoint).all CodePoint.isScalar = s.all CodePoint.isScalar := by
    rw [List.all_flatMap]
    exact congrArg s.all (funext all_escapedCodePoint)
  simp [quotedText, hescaped]

theorem all_newLine (margin : ℕ) : (newLine margin).all CodePoint.isScalar = true := by
  simp [newLine]

mutual

/-- A document is laid out with characters and the code points of its texts and names. -/
theorem all_layout (margin : ℕ) (document : Json) :
    (layout margin document).all CodePoint.isScalar = document.isScalar := by
  cases document with
  | null => simp [layout, atomText]
  | bool b => cases b <;> simp [layout, atomText]
  | int n => simp [layout, atomText, isScalar]
  | float x => simp [layout, atomText, isScalar]
  | text s => simp [layout, atomText, all_quotedText, Text.isScalar]
  | array elements =>
    cases elements with
    | nil => simp [layout, atomText]
    | cons element rest =>
      simp [layout, all_newLine, all_layout, all_layoutElements, isScalar, areScalar]
  | object fields =>
    match fields with
    | [] => simp [layout, atomText]
    | (name, content) :: rest =>
      simp [layout, all_newLine, all_quotedText, all_layout, all_layoutFields, isScalar,
        areScalarFields, Text.isScalar, Bool.and_assoc]

theorem all_layoutElements (margin : ℕ) (elements : List Json) :
    (layoutElements margin elements).all CodePoint.isScalar = areScalar elements := by
  cases elements with
  | nil => simp [layoutElements, all_newLine, areScalar]
  | cons element rest =>
    simp [layoutElements, all_newLine, all_layout, all_layoutElements, areScalar]

theorem all_layoutFields (margin : ℕ) (fields : List (Text × Json)) :
    (layoutFields margin fields).all CodePoint.isScalar = areScalarFields fields := by
  match fields with
  | [] => simp [layoutFields, all_newLine, areScalarFields]
  | (name, content) :: rest =>
    simp [layoutFields, all_newLine, all_quotedText, all_layout, all_layoutFields,
      areScalarFields, Text.isScalar, Bool.and_assoc]

end

theorem isScalar_indented (document : Json) : document.indented.isScalar = document.isScalar :=
  all_layout 0 document

end Json

/-! ### Lines -/

namespace Command

/-- The lines that are printed are those before the first with a surrogate. -/
theorem map_printLines (lines : List Text) :
    (printLines lines).1.map Text.ofString = lines.takeWhile Text.isScalar := by
  induction lines with
  | nil => rfl
  | cons line lines ih =>
    cases hline : line.string? with
    | some printed =>
      obtain rfl := Text.string?_eq_some_iff.mp hline
      simp [printLines, ih]
    | none => simp [printLines, hline, Text.string?_eq_none_iff.mp hline]

theorem printLines_snd (lines : List Text) :
    (printLines lines).2 = lines.all Text.isScalar := by
  induction lines with
  | nil => rfl
  | cons line lines ih =>
    cases hline : line.string? with
    | some printed =>
      obtain rfl := Text.string?_eq_some_iff.mp hline
      simp [printLines, ih]
    | none => simp [printLines, hline, Text.string?_eq_none_iff.mp hline]

/-! ### What is told of outputs -/

theorem isScalar_resultLine (input : String) (outputs : List Text) :
    (resultLine (input, .ofOutputs outputs)).isScalar = outputs.all Text.isScalar := by
  match outputs with
  | [] => simp [resultLine, Outcome.ofOutputs, Outcome.notPossible]
  | [output] => simp [resultLine, Outcome.ofOutputs]
  | output :: other :: rest =>
    simp [resultLine, Outcome.ofOutputs, Text.isScalar_intercalate (Text.isScalar_ofString ", ")]

theorem isScalar_resultJson (input : String) (outputs : List Text) :
    (resultJson (input, .ofOutputs outputs)).isScalar = outputs.all Text.isScalar := by
  match outputs with
  | [] => simp [resultJson, outcomeJson, Outcome.ofOutputs, Outcome.notPossible]
  | [output] => simp [resultJson, outcomeJson, Outcome.ofOutputs]
  | output :: other :: rest => simp [resultJson, outcomeJson, Outcome.ofOutputs]

end Command

theorem Api.ResultInfo.isScalar_json (input : String) (outputs : List Text) :
    (ResultInfo.json ⟨input, .ofOutputs outputs⟩).isScalar = outputs.all Text.isScalar := by
  match outputs with
  | [] =>
    simp [json, Outcome.ofOutputs, Outcome.notPossible, Outcome.output?, Outcome.outputs,
      Outcome.reason?, Outcome.isAccepted, Json.text?]
  | [output] =>
    simp [json, Outcome.ofOutputs, Outcome.output?, Outcome.outputs, Outcome.reason?, Json.text?]
  | output :: other :: rest =>
    simp [json, Outcome.ofOutputs, Outcome.output?, Outcome.outputs, Outcome.reason?, Json.text?]

/-! ### Outputs of a graph -/

namespace Graph

/-- Whether no output of a graph for some inputs has a surrogate. -/
def IsScalarOn (g : Graph Text) (inputs : List String) : Prop :=
  ∀ input ∈ inputs, ∀ output ∈ g.transduce input, output.isScalar = true

instance (g : Graph Text) (inputs : List String) : Decidable (g.IsScalarOn inputs) :=
  inferInstanceAs (Decidable (∀ input ∈ inputs, ∀ output ∈ g.transduce input, _))

end Graph

/-- A rule that writes no surrogate has none in its fragments. -/
theorem Rule.isScalar_of_mem_fragments {rule : Rule} (halign : rule.Alignable)
    (h : rule.outputText.isScalar = true) {s : Text} (hs : s ∈ rule.fragments) :
    s.isScalar = true := by
  rw [← join_fragments halign, Text.isScalar_join, List.all_eq_true] at h
  exact h s hs

/-- Compiled rules that write no surrogates give no output with one, whatever the inputs. -/
theorem Graph.isScalarOn_of_compile? {declared : List Datum} {rules : List Rule} {g : Graph Text}
    (hcompile : compile? declared = .ok g) (hrules : declared.mapM Datum.textRule? = some rules)
    (h : ∀ rule ∈ rules, rule.outputText.isScalar = true) (inputs : List String) :
    g.IsScalarOn inputs := by
  have hg := threads_of_compile? hcompile hrules
  intro input _ output houtput
  rw [transduce_eq_map_paths] at houtput
  obtain ⟨p, hp, rfl⟩ := List.mem_map.mp houtput
  rw [Text.isScalar_join, List.all_eq_true]
  intro s hs
  obtain ⟨e, he, rfl⟩ := List.mem_map.mp hs
  have hedge : e ∈ g.edges := mem_edges_of_accepts (mem_paths_iff.mp hp) he
  rw [hg.graph, mem_edges_empty_buildRules] at hedge
  obtain ⟨rule, hrule, hchain⟩ := hedge
  have halign := hg.alignable hrule
  -- what an edge writes is the fragment of the step that made it
  have hfragment : e.label.output ∈ emitted (chain .root "" rule.plan.1) :=
    List.mem_map_of_mem hchain
  rw [emitted_chain, Rule.plan_of_alignable halign] at hfragment
  obtain ⟨step, hstep, heq⟩ := List.mem_map.mp hfragment
  have hwritten : step.output ∈ rule.fragments := by
    rw [← Rule.map_output_steps]
    exact List.mem_map_of_mem hstep
  exact heq ▸ Rule.isScalar_of_mem_fragments halign (h rule hrule) hwritten

end RuleTransducer
