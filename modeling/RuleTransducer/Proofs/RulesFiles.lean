import RuleTransducer.Proofs.Nesting
import RuleTransducer.Proofs.RawForm
import RuleTransducer.Proofs.Utf8

/-! Rules files and their two commands. The rules of a file are JSON data, so none of them holds a
finished item and none can slip through the check; and the check finds the same in a rule whether
or not its elements were copied first. So validating a file succeeds exactly if its rules compile,
and what stops compiling them is the first rule that validating finds a flaw in. -/

namespace RuleTransducer

/-! ### Rules without finished items -/

/-- Copying the elements of a rule does not change what is found in it, unless it is octets. -/
theorem Datum.validate_materialised {declared : Datum} (h : ∀ octets, declared ≠ bytes octets) :
    declared.materialised.validate = declared.validate := by
  cases declared with
  | bytes octets => exact absurd rfl (h octets)
  | _ => rfl

/-- A rule that is neither octets nor has finished items over other values is admissible exactly
if nothing is wrong with it. -/
theorem Datum.IsTextual.isAdmissible_iff_flaws {declared : Datum} (h : declared.IsTextual)
    (hbytes : ∀ octets, declared ≠ bytes octets) :
    declared.IsAdmissible ↔ declared.validate.flaws = [] := by
  rw [← Verdict.isValid_iff, ← validate_materialised hbytes]
  exact ⟨fun hadmissible => hadmissible.1, h.isAdmissible⟩

namespace RulesFile

theorem ofJson_ne_item (document : Json) (part : Item Datum) :
    Datum.ofJson document ≠ .item part := by
  cases document <;> exact nofun

theorem item_ne_item (document : Json) (part : Item Datum) : item document ≠ .item part := by
  cases document with
  | array parts => exact nofun
  | _ => exact ofJson_ne_item _ part

theorem rule_ne_bytes (document : Json) (octets : List UInt8) : rule document ≠ .bytes octets := by
  cases document <;> exact nofun

/-- The rules of a file hold no finished items. -/
theorem isTextual_rule (document : Json) : (rule document).IsTextual := by
  intro elements helements part hpart
  cases document with
  | array items =>
    cases helements
    obtain ⟨element, -, heq⟩ := List.mem_map.mp hpart
    exact absurd heq (item_ne_item element part)
  | object fields =>
    cases helements
    obtain ⟨field, -, heq⟩ := List.mem_map.mp hpart
    cases heq
  | text s =>
    cases helements
    obtain ⟨c, -, heq⟩ := List.mem_map.mp hpart
    cases heq
  | _ => cases helements

theorem isAdmissible_rule_iff (document : Json) :
    (rule document).IsAdmissible ↔ (rule document).validate.flaws = [] :=
  (isTextual_rule document).isAdmissible_iff_flaws (rule_ne_bytes document)

end RulesFile

/-! ### The first invalid rule -/

/-- Admitting rules stops at the first that is not valid. -/
theorem Graph.addRules_of_invalid {α : Type} [BEq α] [Fragment α] (g : Graph α)
    {before after : List Datum} {declared : Datum}
    (hbefore : ∀ earlier ∈ before, earlier.IsAdmissible)
    (hinvalid : declared.materialised.validate.isValid = false) :
    (g.addRules (before ++ declared :: after)).error? =
      some (.invalid declared.materialised.validate.flaws) := by
  induction before generalizing g with
  | nil =>
    have hfirst : (g.addRule declared).error? =
        some (.invalid declared.materialised.validate.flaws) := by
      simp only [addRule, hinvalid, Bool.false_eq_true, if_false]
    simp only [List.nil_append, addRules, hfirst]
  | cons first before ih =>
    obtain ⟨hfirst, hrest⟩ := List.forall_mem_cons.mp hbefore
    have hnone := (error?_addRule_eq_none_iff g first).mpr hfirst
    simp only [List.cons_append, addRules, hnone]
    exact ih _ hrest

/-- The messages on several rules begin with those on the first invalid one. -/
theorem errors_validateRules_of_first {before : List Datum}
    (hbefore : ∀ earlier ∈ before, earlier.validate.flaws = []) (declared : Datum)
    (after : List Datum) :
    ∃ later, (validateRules (before ++ declared :: after)).errors =
        (declared.validate.flaws.map fun flaw => aboutRule before.length flaw.message) ++ later ∧
      ∀ message ∈ later, ∃ i text, before.length < i ∧ message = aboutRule i text := by
  refine ⟨(after.zipIdx (before.length + 1)).flatMap fun entry =>
    entry.1.validate.flaws.map fun flaw => aboutRule entry.2 flaw.message, ?_, ?_⟩
  · have hnone : (validateRules before).errors = [] := by
      simpa only [errors_validateRules_eq_nil_iff, Verdict.isValid_iff] using hbefore
    have happend : (validateRules (before ++ declared :: after)).errors =
        (validateRules before).errors ++ ((declared :: after).zipIdx before.length).flatMap
          fun entry => entry.1.validate.flaws.map fun flaw => aboutRule entry.2 flaw.message := by
      rw [validateRules, List.zipIdx_append, List.flatMap_append, Nat.zero_add]
      rfl
    rw [happend, hnone, List.nil_append, List.zipIdx_cons, List.flatMap_cons]
  · intro message hmessage
    obtain ⟨entry, hmem, hrule⟩ := List.mem_flatMap.mp hmessage
    obtain ⟨flaw, -, rfl⟩ := List.mem_map.mp hrule
    exact ⟨entry.2, flaw.message, List.le_snd_of_mem_zipIdx hmem, rfl⟩

/-! ### What a file holds -/

/-- Whether the text of a file is a document that can be read to be compiled. A document with one
more level, which can only be read to be validated, is not counted as held. -/
def RulesFile.Holds (content : FileContent) (document : Json) : Prop :=
  ∃ octets text, content = .ok octets ∧ Text.Utf8.decode? octets = some text ∧
    Json.decodeWithin Command.compiledNesting ((plainLineEnds text).map .char) = .ok document

theorem RulesFile.Holds.ofContent_eq {content : FileContent} {document : Json}
    (h : Holds content document) : ofContent Command.compiledNesting content = ofJson document := by
  obtain ⟨octets, text, rfl, htext, hdocument⟩ := h
  simp only [ofContent, htext, ofText, hdocument]

/-- A file with a text in UTF-8 holds the document that is read from the text. -/
theorem RulesFile.holds_encode {text : List Char} {document : Json}
    (h : Json.decodeWithin Command.compiledNesting ((plainLineEnds text).map .char) =
      .ok document) : Holds (.ok (Text.Utf8.encode text)) document :=
  ⟨_, text, rfl, Text.Utf8.decode?_encode text, h⟩

namespace Command

/-- Whether the rules of a file compile to a graph. -/
def Builds (content : FileContent) (g : Graph Text) : Prop :=
  ∃ rules, RulesFile.ofContent compiledNesting content = .ok rules ∧ compile? rules = .ok g

/-- The report on the graph of a file comes behind the log lines of compiling it. -/
theorem onGraph_of_builds {content : FileContent} {g : Graph Text} (h : Builds content g)
    (level : LogLevel) (path : String) (report : Graph Text → Report) :
    ∃ lines, onGraph level path content report = (report g).logged lines := by
  obtain ⟨rules, hrules, hcompile⟩ := h
  simp only [compile?] at hcompile
  split at hcompile
  case h_1 hnone =>
    cases hcompile
    simp only [onGraph, hrules, hnone]
    exact ⟨_, rfl⟩
  case h_2 => cases hcompile

section Holds
variable {content : FileContent} {parts : List Json} (h : RulesFile.Holds content (.array parts))
include h

theorem builds_iff (g : Graph Text) :
    Builds content g ↔ compile? (parts.map RulesFile.rule) = .ok g := by
  have hrules : RulesFile.ofContent compiledNesting content = .ok (parts.map RulesFile.rule) :=
    h.ofContent_eq
  rw [Builds, hrules]
  simp only [Except.ok.injEq, exists_eq_left']

theorem exists_builds_iff :
    (∃ g, Builds content g) ↔ ∀ part ∈ parts, (RulesFile.rule part).validate.flaws = [] := by
  simp only [builds_iff h, Graph.exists_compile?_iff, List.forall_mem_map,
    RulesFile.isAdmissible_rule_iff]

/-- The report on a file that holds an array of rules. -/
theorem validateReport_eq (path : String) :
    validateReport path content =
      let findings := validateRules (parts.map RulesFile.rule)
      let lines := s!"Rules: {parts.length}" :: listing "Warnings:" findings.warnings
      if findings.errors = [] then ⟨.exit 0, lines ++ ["OK"], [], none⟩
      else ⟨.exit 1, lines ++ listing "Errors:" findings.errors, [], none⟩ := by
  have hrules : RulesFile.ofContent validatedNesting content = .ok (parts.map RulesFile.rule) :=
    ofContent_validatedNesting h.ofContent_eq
  simp only [validateReport, hrules, List.length_map, Findings.isValid, List.isEmpty_iff]

/-- The report on a file whose rules stop compiling at flaws. -/
theorem onGraph_of_invalid {flaws : List RuleFlaw}
    (hflaws : (compileAll (parts.map RulesFile.rule) : Admission Text).error? =
      some (.invalid flaws)) (level : LogLevel) (path : String) (report : Graph Text → Report) :
    onGraph level path content report =
      ⟨.exit 1, [],
        logLines level (compileAll (parts.map RulesFile.rule) : Admission Text).events ++
          "Error: invalid rules:" :: flaws.map fun flaw => "  - " ++ flaw.message, none⟩ := by
  have hrules : RulesFile.ofContent compiledNesting content = .ok (parts.map RulesFile.rule) :=
    h.ofContent_eq
  simp only [onGraph, hrules, hflaws]
  rfl

/-- The rules of a file that does not compile up to the first that is not valid. -/
theorem exists_first_invalid (hno : ¬∃ g, Builds content g) :
    ∃ before part after, parts = before ++ part :: after ∧
      (∀ earlier ∈ before, (RulesFile.rule earlier).validate.flaws = []) ∧
      (RulesFile.rule part).validate.flaws ≠ [] := by
  rw [exists_builds_iff h] at hno
  push Not at hno
  obtain ⟨part, hpart, hflaws⟩ := hno
  have hfind : (parts.find? fun part => !(RulesFile.rule part).validate.isValid).isSome := by
    refine List.find?_isSome.mpr ⟨part, hpart, ?_⟩
    rw [Bool.not_eq_true', Verdict.isValid_eq_false_iff]
    exact hflaws
  obtain ⟨first, hfirst⟩ := Option.isSome_iff_exists.mp hfind
  obtain ⟨hinvalid, before, after, hparts, hbefore⟩ := List.find?_eq_some_iff_append.mp hfirst
  refine ⟨before, first, after, hparts, fun earlier hearlier => ?_, ?_⟩
  · have hvalid := hbefore earlier hearlier
    rwa [Bool.not_not, Verdict.isValid_iff] at hvalid
  · rwa [Bool.not_eq_true', Verdict.isValid_eq_false_iff] at hinvalid

/-- Validating a file of rules succeeds exactly if its rules compile. If they do not, compiling them
stops with the flaws of the first rule that has any, and nothing else. These are what is reported,
and validating reports the same about that rule before anything about a later one. -/
theorem validateReport_agrees (path : String) :
    ((validateReport path content).ending = .exit 0 ↔ ∃ g, Builds content g) ∧
    ((¬∃ g, Builds content g) → ∃ before part after later,
      parts = before ++ part :: after ∧
      (∀ earlier ∈ before, (RulesFile.rule earlier).validate.flaws = []) ∧
      (RulesFile.rule part).validate.flaws ≠ [] ∧
      compile? (parts.map RulesFile.rule) = .error (.invalid (RulesFile.rule part).validate.flaws) ∧
      (∀ level report, onGraph level path content report =
        ⟨.exit 1, [],
          logLines level (compileAll (parts.map RulesFile.rule) : Admission Text).events ++
            "Error: invalid rules:" ::
              (RulesFile.rule part).validate.flaws.map fun flaw => "  - " ++ flaw.message, none⟩) ∧
      validateReport path content =
        ⟨.exit 1, s!"Rules: {parts.length}" ::
          listing "Warnings:" (validateRules (parts.map RulesFile.rule)).warnings ++
          listing "Errors:" (((RulesFile.rule part).validate.flaws.map fun flaw =>
            aboutRule before.length flaw.message) ++ later), [], none⟩ ∧
      ∀ message ∈ later, ∃ i text, before.length < i ∧ message = aboutRule i text) := by
  have hreport := validateReport_eq h path
  constructor
  · have herrors :
        (validateRules (parts.map RulesFile.rule)).errors = [] ↔ ∃ g, Builds content g := by
      rw [exists_builds_iff h, errors_validateRules_eq_nil_iff, List.forall_mem_map]
      simp only [Verdict.isValid_iff]
    rw [hreport, ← herrors]
    dsimp only
    split
    case isTrue hnone => exact iff_of_true rfl hnone
    case isFalse hsome => exact iff_of_false (by simp) hsome
  · intro hno
    obtain ⟨before, part, after, rfl, hbefore, hflaws⟩ := exists_first_invalid h hno
    have hrules : (before ++ part :: after).map RulesFile.rule =
        before.map RulesFile.rule ++ RulesFile.rule part :: after.map RulesFile.rule :=
      List.map_append
    have hadmissible : ∀ earlier ∈ before.map RulesFile.rule, earlier.IsAdmissible := by
      simpa only [List.forall_mem_map, RulesFile.isAdmissible_rule_iff] using hbefore
    have hvalidate := Datum.validate_materialised (RulesFile.rule_ne_bytes part)
    have hinvalid : (RulesFile.rule part).materialised.validate.isValid = false := by
      rw [hvalidate, Verdict.isValid_eq_false_iff]
      exact hflaws
    have hcompile : (compileAll ((before ++ part :: after).map RulesFile.rule) :
        Admission Text).error? = some (.invalid (RulesFile.rule part).validate.flaws) := by
      rw [compileAll, hrules, Graph.addRules_of_invalid _ hadmissible hinvalid, hvalidate]
    obtain ⟨later, hlater, habout⟩ := errors_validateRules_of_first
      (List.forall_mem_map.mpr hbefore) (RulesFile.rule part) (after.map RulesFile.rule)
    rw [← hrules, List.length_map] at hlater
    rw [List.length_map] at habout
    refine ⟨before, part, after, later, rfl, hbefore, hflaws, ?_, ?_, ?_, habout⟩
    · simp only [compile?, hcompile]
    · exact fun level report => onGraph_of_invalid h hcompile level path report
    · rw [hreport]
      dsimp only
      rw [hlater, if_neg]
      exact fun hnil => hflaws (List.map_eq_nil_iff.mp (List.append_eq_nil_iff.mp hnil).1)

end Holds

/-- A valid rule, an object that counts as its names, a rule with a flaw, and a text. -/
def mixedParts : List Json :=
  [.array [.text "a"], .object [("b", .int 1)], .array [.int 5], .text "c"]

def mixedFile : FileContent :=
  .ok (Text.Utf8.encode "[[\"a\"],\x7b\"b\":1\x7d,[5],\"c\"]".toList)

theorem validateReport_agrees_mixedFile :
    RulesFile.Holds mixedFile (.array mixedParts) ∧ (¬∃ g, Builds mixedFile g) ∧
      (validateReport "rules.json" mixedFile).ending ≠ .exit 0 ∧
      ∃ part ∈ mixedParts, compile? (mixedParts.map RulesFile.rule) =
        .error (.invalid (RulesFile.rule part).validate.flaws) := by
  have hholds : RulesFile.Holds mixedFile (.array mixedParts) := by
    refine RulesFile.holds_encode ?_
    simp only [String.reduceToList]
    rfl
  have hno : ¬∃ g, Builds mixedFile g := by
    rw [exists_builds_iff hholds]
    intro hall
    exact absurd (hall (.text "c") (by simp [mixedParts])) (by decide)
  obtain ⟨hending, hfails⟩ := validateReport_agrees hholds "rules.json"
  obtain ⟨before, part, after, later, hparts, -, -, hcompile, -⟩ := hfails hno
  refine ⟨hholds, hno, mt hending.mp hno, part, ?_, hcompile⟩
  rw [hparts]
  exact List.mem_append_right before List.mem_cons_self

end Command

end RuleTransducer
