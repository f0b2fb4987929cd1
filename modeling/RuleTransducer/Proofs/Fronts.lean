import Mathlib.Data.List.TakeWhile
import RuleTransducer.Proofs.Batches
import RuleTransducer.Proofs.Forms
import RuleTransducer.Proofs.RuleDocuments

/-! The command line and the service. Rules that are read from a file and rules that are read from
a request are declared alike, item by item, so they compile to one graph. What the two tell of it
is then the same: the counts, and for every input the outcome, which the command line gives as a
tag with its content and the service as a status with the content in a field of its own. Where an
output has a surrogate the command line breaks off instead, although the service counts the input as
accepted. -/

namespace RuleTransducer

/-! ### Rules of a file and of a request -/

theorem RulesFile.item_itemJson (item : Item Text) :
    RulesFile.item (Api.itemJson item) = (item.map .text).raw := by
  cases item <;> rfl

/-- What a request takes for rules is declared in a file as it is in the request. -/
theorem RulesFile.ofJson_rulesJson (rules : List (List (Item Text))) :
    RulesFile.ofJson (Api.rulesJson rules) = .ok (rules.map Api.rawRequestRule) := by
  have hrule (items : List (Item Text)) :
      RulesFile.rule (.array (items.map Api.itemJson)) = Api.rawRequestRule items := by
    rw [RulesFile.rule, List.map_map, Api.rawRequestRule]
    exact congrArg Datum.list (List.map_congr_left fun item _ => item_itemJson item)
  rw [Api.rulesJson, RulesFile.ofJson, List.map_map]
  exact congrArg Except.ok (List.map_congr_left fun items _ => hrule items)

/-! ### The session of a request -/

namespace Api

/-- A new session is found under its identifier. -/
theorem find?_extended {r : Registry} {session : Session} (h : session.id ∉ r.ids) :
    (extended r session).find? session.id = some session := by
  have hnone : r.sessions.find? (fun known => known.id = session.id) = none :=
    Registry.find?_eq_none_iff.mpr h
  rw [Registry.find?, extended, List.find?_append, hnone, Option.none_or, List.find?_singleton,
    if_pos (decide_eq_true rfl)]

/-- A request whose rules compile creates a session with their graph. -/
theorem create_of_compile? {request : CreateRequest} {g : Graph Text}
    (h : compile? (request.rules.map rawRequestRule) = .ok g) (fresh : ℕ → String) (r : Registry) :
    create r request fresh = (extended r (newSession fresh r request g),
      .ok (.transducer
        (.ofSession (newSession fresh r request g) (warningsOn request.rules)))) := by
  obtain ⟨-, graph, hgraph, hcreate⟩ | ⟨hsome, -⟩ := create_cases fresh r request
  · obtain rfl : g = graph := Except.ok.inj (h.symm.trans hgraph)
    exact hcreate
  · have hnone : (validateRules (request.rules.map rawRequestRule)).errors = [] := by
      refine errors_validateRules_eq_nil_iff.mpr fun rule hrule => ?_
      obtain ⟨items, -, rfl⟩ := List.mem_map.mp hrule
      exact (Graph.exists_compile?_iff.mp ⟨g, h⟩ _ hrule).1
    rw [errors_validateRules_map_rawRequestRule, List.map_eq_nil_iff] at hnone
    exact absurd hnone hsome

end Api

/-! ### Rules without surrogates -/

theorem Api.isScalar_itemJson (item : Item Text) :
    (itemJson item).isScalar = (item.source.isScalar && item.destination.isScalar) := by
  cases item <;> simp [itemJson, Item.source, Item.destination]

theorem Api.mapM_textRule?_rawRequestRule (rules : List (List (Item Text))) :
    (rules.map rawRequestRule).mapM Datum.textRule? = some (rules.map Rule.mk) := by
  rw [mapM_eq_some_iff_forall₂, List.forall₂_map_left_iff, List.forall₂_map_right_iff,
    List.forall₂_same]
  intro items _
  have hforms : List.Forall₂ Item.HasForm items (items.map fun item => (item.map .text).raw) :=
    List.forall₂_map_right_iff.mpr (List.forall₂_same.mpr fun item _ => item.hasForm_raw)
  have hform : (Rule.mk items).HasForm (rawRequestRule items) := .list hforms
  exact hform.textRule?

/-- Rules in a document without surrogates give no output with one. -/
theorem Graph.isScalarOn_of_rulesJson {rules : List (List (Item Text))} {g : Graph Text}
    (hscalar : (Api.rulesJson rules).isScalar = true)
    (hcompile : compile? (rules.map Api.rawRequestRule) = .ok g) (inputs : List String) :
    g.IsScalarOn inputs := by
  refine isScalarOn_of_compile? hcompile (Api.mapM_textRule?_rawRequestRule rules) ?_ inputs
  simp only [Api.rulesJson, Json.isScalar_array, List.all_map, List.all_eq_true,
    Function.comp_apply, Api.isScalar_itemJson, Bool.and_eq_true] at hscalar
  rw [List.forall_mem_map]
  intro items hitems
  rw [Rule.outputText, Text.isScalar_join, List.all_map, List.all_eq_true]
  exact fun item hitem => (hscalar items hitems item hitem).2

/-! ### What the two tell of an outcome -/

/-- How an outcome is told: the tag on the command line, the status in the service, and the field of
the service that holds what the command line puts behind the tag. -/
inductive Told : String → String → String → Prop
  | success : Told "ok" "success" "output"
  | ambiguous : Told "ambiguous" "ambiguous" "outputs"
  | failure : Told "error" "failure" "error"

/-- How a content is written in a line. -/
inductive Shown : Json → Text → Prop
  | text (s : Text) : Shown (.text s) s
  | texts (ss : List Text) : Shown (.texts ss) (.intercalate ", " ss)

/-- Whether an entry of the command line and a result of the service tell the same. -/
def EntryAgrees (entry result : Json) : Prop :=
  ∃ input tag status name content, Told tag status name ∧
    entry.field? "input" = some (.text input) ∧
    entry.field? "result" = some (.array [.text tag, content]) ∧
    result.field? "input" = some (.text input) ∧
    result.field? "status" = some (.text status) ∧ result.field? name = some content

/-- Whether a line of the command line and a result of the service tell the same. -/
def LineAgrees (line : Text) (result : Json) : Prop :=
  ∃ input tag status name content shown, Told tag status name ∧ Shown content shown ∧
    line = input ++ "\t" ++ tag ++ "\t" ++ shown ∧
    result.field? "input" = some (.text input) ∧
    result.field? "status" = some (.text status) ∧ result.field? name = some content

namespace Command

theorem entryAgrees_json (input : String) (outcome : Outcome Text) :
    EntryAgrees (resultJson (input, outcome)) (Api.ResultInfo.json ⟨input, outcome⟩) := by
  cases outcome with
  | success output => exact ⟨input, _, _, _, .text output, .success, rfl, rfl, rfl, rfl, rfl⟩
  | ambiguous outputs => exact ⟨input, _, _, _, .texts outputs, .ambiguous, rfl, rfl, rfl, rfl, rfl⟩
  | failure reason => exact ⟨input, _, _, _, .text reason, .failure, rfl, rfl, rfl, rfl, rfl⟩

theorem lineAgrees_json (input : String) (outcome : Outcome Text) :
    LineAgrees (resultLine (input, outcome)) (Api.ResultInfo.json ⟨input, outcome⟩) := by
  cases outcome with
  | success output =>
    exact ⟨input, _, _, _, _, output, .success, .text output, rfl, rfl, rfl, rfl⟩
  | ambiguous outputs =>
    exact ⟨input, _, _, _, _, _, .ambiguous, .texts outputs, rfl, rfl, rfl, rfl⟩
  | failure reason =>
    exact ⟨input, _, _, _, _, reason, .failure, .text reason, rfl, rfl, rfl, rfl⟩

/-! ### Reports on a graph -/

/-- Inputs with their outcomes. -/
def outcomesOn (g : Graph Text) (inputs : List String) : List (Text × Outcome Text) :=
  inputs.map fun input : String => ((input : Text), g.parse input)

theorem zip_parseBatch (g : Graph Text) (inputs : List String) :
    (inputs.map Text.ofString).zip (g.parseBatch (inputs.map Text.ofString)) =
      outcomesOn g inputs := by
  rw [Graph.parseBatch, List.zip_map_right, List.zip, List.zipWith_self, List.map_map, List.map_map]
  rfl

/-- The lines can be printed exactly if no output has a surrogate. -/
theorem all_resultLines_iff (g : Graph Text) (inputs : List String) (asJson : Bool) :
    (resultLines (outcomesOn g inputs) asJson).all Text.isScalar = true ↔ g.IsScalarOn inputs := by
  cases asJson with
  | true =>
    simp [resultLines, outcomesOn, Json.isScalar_indented, Graph.parse, isScalar_resultJson,
      Graph.IsScalarOn]
  | false => simp [resultLines, outcomesOn, Graph.parse, isScalar_resultLine, Graph.IsScalarOn]

section Run
variable (level : LogLevel) (inputs : List String) (asJson : Bool) (g : Graph Text)

theorem output_parseReport :
    (parseReport level inputs asJson g).output =
      (printLines (resultLines (outcomesOn g inputs) asJson)).1 := by
  simp only [parseReport, zip_parseBatch]

theorem ending_parseReport :
    (parseReport level inputs asJson g).ending =
      if g.IsScalarOn inputs then
        .exit (if (g.parseBatch (inputs.map Text.ofString)).all Outcome.isAccepted then 0 else 1)
      else .breakdown .unprintable := by
  simp only [parseReport, zip_parseBatch, printLines_snd, all_resultLines_iff]

end Run

section Reports
variable {read : String → FileContent} {path : String} {g : Graph Text}
  (h : Builds (read path) g) (level : LogLevel) (inputs : List String) (asJson : Bool)
include h

theorem stats_report :
    ((Job.stats path).report level read).ending = .exit 0 ∧
      ((Job.stats path).report level read).output =
        [s!"Vertices: {g.stats.vertices}", s!"Edges: {g.stats.edges}",
          s!"Terminal vertices: {g.stats.terminals}"] := by
  obtain ⟨lines, hreport⟩ := onGraph_of_builds h level path statsReport
  rw [Job.report, hreport]
  exact ⟨rfl, rfl⟩

/-- A run prints its lines up to the first with a surrogate. -/
theorem output_parse_report :
    ((Job.parse path inputs asJson).report level read).output.map Text.ofString =
      (resultLines (outcomesOn g inputs) asJson).takeWhile Text.isScalar := by
  obtain ⟨lines, hreport⟩ := onGraph_of_builds h level path (parseReport level inputs asJson)
  rw [Job.report, hreport, Report.logged, output_parseReport]
  exact map_printLines _

theorem ending_parse_report :
    ((Job.parse path inputs asJson).report level read).ending =
      if g.IsScalarOn inputs then
        .exit (if (g.parseBatch (inputs.map Text.ofString)).all Outcome.isAccepted then 0 else 1)
      else .breakdown .unprintable := by
  obtain ⟨lines, hreport⟩ := onGraph_of_builds h level path (parseReport level inputs asJson)
  rw [Job.report, hreport, Report.logged]
  exact ending_parseReport level inputs asJson g

variable (hscalar : g.IsScalarOn inputs)
include hscalar

theorem output_parse_report_of_isScalarOn :
    ((Job.parse path inputs asJson).report level read).output.map Text.ofString =
      resultLines (outcomesOn g inputs) asJson := by
  have hall := (all_resultLines_iff g inputs asJson).mpr hscalar
  rw [output_parse_report h, List.takeWhile_eq_self_iff]
  exact List.all_eq_true.mp hall

/-- A run succeeds exactly if as many inputs are accepted as there are. -/
theorem ending_parse_report_iff :
    ((Job.parse path inputs asJson).report level read).ending = .exit 0 ↔
      Api.Reply.acceptedCount (inputs.map fun input => ⟨input, g.parse input⟩) = inputs.length := by
  have hall : (g.parseBatch (inputs.map Text.ofString)).all Outcome.isAccepted = true ↔
      Api.Reply.acceptedCount (inputs.map fun input => ⟨input, g.parse input⟩) = inputs.length := by
    rw [Api.Reply.acceptedCount, List.countP_map, List.countP_eq_length, Graph.parseBatch,
      List.map_map, List.all_map, List.all_eq_true]
    rfl
  rw [← hall, ending_parse_report h, if_pos hscalar]
  cases (g.parseBatch (inputs.map Text.ofString)).all Outcome.isAccepted <;> simp

end Reports

/-- A request for the rules of a file that builds creates a session with the same graph. -/
theorem create_of_builds {content : FileContent} {document body : Json}
    {request : Api.CreateRequest} {g : Graph Text} (hcontent : RulesFile.Holds content document)
    (hbuilds : Builds content g) (hbody : Api.CreateRequest.HasBody body request)
    (hrules : body.field? "rules" = some document) (fresh : ℕ → String) (r : Registry) :
    Api.create r request fresh = (Api.extended r (Api.newSession fresh r request g),
      .ok (.transducer
        (.ofSession (Api.newSession fresh r request g) (Api.warningsOn request.rules)))) := by
  obtain ⟨fields, rfl, hlookup, -⟩ := hbody
  obtain rfl : Api.rulesJson request.rules = document := Option.some.inj (hlookup.symm.trans hrules)
  obtain ⟨rules, hfile, hcompile⟩ := hbuilds
  rw [hcontent.ofContent_eq, RulesFile.ofJson_rulesJson] at hfile
  rw [← Except.ok.inj hfile] at hcompile
  exact Api.create_of_compile? hcompile fresh r

/-! ### Reports and replies -/

/-- The command line and the service give the same answers. For rules that are accepted in a file
and in a request the stats are the same; and for any inputs on which no output has a surrogate the
outcomes are the same one by one, as entries and as lines, and the run succeeds exactly if the
service counts all inputs as accepted. -/
theorem reports_agree {fresh : ℕ → String} (hfresh : Function.Injective fresh)
    {read : String → FileContent} {path : String} {document body : Json}
    {request : Api.CreateRequest} {g : Graph Text} (hcontent : RulesFile.Holds (read path) document)
    (hbuilds : Builds (read path) g) (hbody : Api.CreateRequest.HasBody body request)
    (hrules : body.field? "rules" = some document) (requests : List Api.Request)
    (level : LogLevel) :
    let created := Api.create (Api.served fresh .empty requests) request fresh
    ∃ info, created.2 = .ok (.transducer info) ∧
      (∃ s, Api.stats created.1 info.id = .stats s ∧
        ((Job.stats path).report level read).ending = .exit 0 ∧
        ((Job.stats path).report level read).output =
          [s!"Vertices: {s.vertices}", s!"Edges: {s.edges}",
            s!"Terminal vertices: {s.terminals}"]) ∧
      ∀ inputs, g.IsScalarOn inputs → ∃ results : List Api.ResultInfo,
        (Api.parseBatch created.1 info.id ⟨inputs⟩).2 = .batch info.id results ∧
        results.map Api.ResultInfo.input = inputs ∧
        (∃ entries, ((Job.parse path inputs true).report level read).output.map Text.ofString =
            [(Json.array entries).indented] ∧
          List.Forall₂ EntryAgrees entries (results.map Api.ResultInfo.json)) ∧
        List.Forall₂ LineAgrees
          (((Job.parse path inputs false).report level read).output.map Text.ofString)
          (results.map Api.ResultInfo.json) ∧
        ∀ asJson, ((Job.parse path inputs asJson).report level read).ending = .exit 0 ↔
          Api.Reply.acceptedCount results = inputs.length := by
  intro created
  let session := Api.newSession fresh (Api.served fresh .empty requests) request g
  have hcreated : created = (Api.extended (Api.served fresh .empty requests) session,
      .ok (.transducer (.ofSession session (Api.warningsOn request.rules)))) :=
    create_of_builds hcontent hbuilds hbody hrules fresh _
  have hfind : created.1.find? session.id = some session := by
    rw [hcreated]
    exact Api.find?_extended (Api.fresh_not_mem_ids_served hfresh requests)
  refine ⟨.ofSession session (Api.warningsOn request.rules), congrArg Prod.snd hcreated, ?_, ?_⟩
  · have hstats : created.1.stats? session.id = some g.stats := by
      rw [Registry.stats?, hfind]
      rfl
    refine ⟨g.stats, ?_, stats_report hbuilds level⟩
    simp only [Api.stats, Api.TransducerInfo.ofSession, hstats]
  · intro inputs hscalar
    refine ⟨inputs.map fun input => ⟨input, g.parse input⟩,
      congrArg Prod.snd (Api.parseBatch_of_find? hfind inputs), ?_,
      ⟨_, output_parse_report_of_isScalarOn hbuilds level inputs true hscalar, ?_⟩, ?_,
      fun asJson => ending_parse_report_iff hbuilds level inputs asJson hscalar⟩
    · rw [List.map_map]
      exact List.map_id _
    · rw [outcomesOn, List.map_map, List.map_map, List.forall₂_map_left_iff,
        List.forall₂_map_right_iff, List.forall₂_same]
      exact fun input _ => entryAgrees_json input (g.parse input)
    · rw [output_parse_report_of_isScalarOn hbuilds level inputs false hscalar, resultLines,
        if_neg Bool.false_ne_true, outcomesOn, List.map_map, List.map_map,
        List.forall₂_map_left_iff, List.forall₂_map_right_iff, List.forall₂_same]
      exact fun input _ => lineAgrees_json input (g.parse input)

/-- Two rules for one input, which make it ambiguous. -/
def forkedParts : List Json := [.array [.array [.text "a", .text "x"]], .array [.text "a"]]

def forkedFile : FileContent := .ok (Text.Utf8.encode "[[[\"a\",\"x\"]],[\"a\"]]".toList)

theorem holds_forkedFile : RulesFile.Holds forkedFile (.array forkedParts) := by
  refine RulesFile.holds_encode ?_
  simp only [String.reduceToList]
  rfl

/-- The graph of the rules of a file. -/
def fileGraph (parts : List Json) : Graph Text := (compileAll (parts.map RulesFile.rule)).graph

theorem reports_agree_forkedFile :
    RulesFile.Holds forkedFile (.array forkedParts) ∧ Builds forkedFile (fileGraph forkedParts) ∧
      (fileGraph forkedParts).IsScalarOn ["a", "b"] ∧
      let created := Api.create (Api.served Registry.idOf .empty [])
        ⟨[[.transform "a" "x"], [.literal "a"]], some "second"⟩ Registry.idOf
      ∃ info, created.2 = .ok (.transducer info) ∧ ∃ results : List Api.ResultInfo,
        (Api.parseBatch created.1 info.id ⟨["a", "b"]⟩).2 = .batch info.id results ∧
        List.Forall₂ LineAgrees
          (((Job.parse "rules.json" ["a", "b"] false).report .warning
            fun _ => forkedFile).output.map Text.ofString)
          (results.map Api.ResultInfo.json) := by
  let read : String → FileContent := fun _ => forkedFile
  have hbuilds : Builds (read "rules.json") (fileGraph forkedParts) :=
    (builds_iff holds_forkedFile _).mpr rfl
  have hbody : Api.CreateRequest.HasBody
      (.object [("name", .text "second"), ("rules", .array forkedParts)])
      ⟨[[.transform "a" "x"], [.literal "a"]], some "second"⟩ := ⟨_, rfl, rfl, rfl, by decide⟩
  have hscalar : (fileGraph forkedParts).IsScalarOn ["a", "b"] := by decide +kernel
  obtain ⟨info, hinfo, -, hinputs⟩ := @reports_agree Registry.idOf Registry.idOf_injective read
    "rules.json" _ _ _ _ holds_forkedFile hbuilds hbody rfl [] .warning
  obtain ⟨results, hresults, -, -, hlines, -⟩ := hinputs ["a", "b"] hscalar
  exact ⟨holds_forkedFile, hbuilds, hscalar, info, hinfo, results, hresults, hlines⟩

/-! ### Runs that fail on accepted inputs -/

/-- Whether a command line with inputs fails on a file of rules, although the service takes the
rules and counts all of the inputs as accepted. -/
def FailsAccepted (content : FileContent) (document : Json) (rules : List (List (Item Text)))
    (inputs : List String) : Prop :=
  RulesFile.Holds content document ∧ (∃ g, Builds content g) ∧
    Api.CreateRequest.HasBody (Api.rulesBody document) ⟨rules, none⟩ ∧
    (run none (fun _ => content) ("parse" :: "rules.json" :: inputs)).ending ≠ .exit 0 ∧
    let created := Api.create .empty ⟨rules, none⟩
    ∃ info results, created.2 = .ok (.transducer info) ∧
      (Api.parseBatch created.1 info.id ⟨inputs⟩).2 = .batch info.id results ∧
      Api.Reply.acceptedCount results = inputs.length

theorem failsAccepted_of_builds {content : FileContent} {document : Json}
    {rules : List (List (Item Text))} {inputs : List String} {g : Graph Text}
    (hcontent : RulesFile.Holds content document) (hbuilds : Builds content g)
    (hbody : Api.CreateRequest.HasBody (Api.rulesBody document) ⟨rules, none⟩)
    (hending :
      (run none (fun _ => content) ("parse" :: "rules.json" :: inputs)).ending ≠ .exit 0)
    (haccepted : ∀ input ∈ inputs, (g.parse input).isAccepted = true) :
    FailsAccepted content document rules inputs := by
  refine ⟨hcontent, ⟨g, hbuilds⟩, hbody, hending, ?_⟩
  have hcreate := create_of_builds hcontent hbuilds hbody rfl Registry.idOf .empty
  let session := Api.newSession Registry.idOf .empty ⟨rules, none⟩ g
  have hfind : (Api.extended .empty session).find? session.id = some session :=
    Api.find?_extended List.not_mem_nil
  rw [hcreate]
  refine ⟨_, _, rfl, congrArg Prod.snd (Api.parseBatch_of_find? hfind inputs), ?_⟩
  rw [Api.Reply.acceptedCount, List.countP_map, List.countP_eq_length]
  exact haccepted

/-- One rule that writes a surrogate. -/
def surrogateParts : List Json := [.array [.array [.text "a", .text .loneSurrogate]]]

def surrogateFile : FileContent :=
  .ok (Text.Utf8.encode "[[[\"a\",\"\\ud800\"]]]".toList)

theorem holds_surrogateFile : RulesFile.Holds surrogateFile (.array surrogateParts) := by
  refine RulesFile.holds_encode ?_
  simp only [String.reduceToList]
  rfl

/-- A command line without inputs does not fit, and the line on an output with a surrogate cannot be
printed. In both cases the service counts as many inputs as accepted as there are. -/
theorem failsAccepted_files :
    FailsAccepted forkedFile (.array forkedParts) [[.transform "a" "x"], [.literal "a"]] [] ∧
      FailsAccepted surrogateFile (.array surrogateParts) [[.transform "a" .loneSurrogate]]
        ["a"] := by
  constructor
  · have hbuilds := (builds_iff holds_forkedFile (fileGraph forkedParts)).mpr rfl
    have hline : interpret ["parse", "rules.json"] = .error .misuse := by decide +kernel
    refine failsAccepted_of_builds holds_forkedFile hbuilds ⟨_, rfl, rfl, .inl rfl⟩ ?_ nofun
    rw [run, hline]
    nofun
  · let read : String → FileContent := fun _ => surrogateFile
    have hbuilds : Builds (read "rules.json") (fileGraph surrogateParts) :=
      (builds_iff holds_surrogateFile _).mpr rfl
    have hline : interpret ["parse", "rules.json", "a"] =
        .ok ⟨false, some (.parse "rules.json" ["a"] false)⟩ := by decide +kernel
    have hsurrogate : ¬(fileGraph surrogateParts).IsScalarOn ["a"] := by decide +kernel
    refine failsAccepted_of_builds holds_surrogateFile hbuilds ⟨_, rfl, rfl, .inl rfl⟩ ?_
      (by decide +kernel)
    have hending := ending_parse_report hbuilds (.choose false none) ["a"] false
    rw [if_neg hsurrogate] at hending
    rw [run, hline]
    dsimp only
    rw [hending]
    nofun

end Command

end RuleTransducer
