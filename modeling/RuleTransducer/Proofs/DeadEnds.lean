import RuleTransducer.Proofs.Forms
import RuleTransducer.Proofs.Recognition
import RuleTransducer.Proofs.Size

/-! Dead rules. The check warns of a rule without items and of a rule whose last item reads nothing,
and looks at nothing but that last item. That is enough: exactly the rules that it warns of have no
closing step, so they bring no terminal vertex to a graph, and no text is accepted for them, neither
their own input in a graph of their own nor any other one in a graph that they are merged into. All
the rules are over texts, those of the graph too: other values can make edges that read more than a
code point, and a dead rule can lead to a vertex behind one of these. -/

namespace RuleTransducer

/-- Whether one of the warnings says that the rule is empty or that it ends without reading. -/
def Verdict.WarnsOfDeadRule (verdict : Verdict) : Prop :=
  ∃ warning ∈ verdict.warnings,
    warning.message = "rule is empty and will never accept any input" ∨
      warning.message = "last item consumes no input; rule can never reach a terminal vertex"

/-- A warning about an item begins with the name of the item. -/
theorem RuleWarning.head?_message_inItem (index : ℕ) (warning : ItemWarning) :
    (inItem index warning).message.toList.head? = some 'i' := by
  simp only [message, String.toList_append]
  rfl

theorem Verdict.warnsOfDeadRule_iff_mem {verdict : Verdict} :
    verdict.WarnsOfDeadRule ↔
      .emptyRule ∈ verdict.warnings ∨ .deadEnd ∈ verdict.warnings := by
  constructor
  · rintro ⟨warning, hmem, hmessage⟩
    cases warning with
    | emptyRule => exact .inl hmem
    | deadEnd => exact .inr hmem
    | inItem index warning =>
      have hhead := RuleWarning.head?_message_inItem index warning
      obtain h | h := hmessage
      · rw [h] at hhead
        exact absurd hhead (by decide)
      · rw [h] at hhead
        exact absurd hhead (by decide)
  · rintro (hmem | hmem)
    · exact ⟨_, hmem, .inl rfl⟩
    · exact ⟨_, hmem, .inr rfl⟩

namespace Datum

/-! ### Warnings of the check -/

/-- Items without flaws are warned of exactly if there is no last one or it reads nothing. -/
theorem warnsOfDeadRule_checkItems_iff {items : List Datum}
    (hvalid : (checkItems items).isValid = true) :
    (checkItems items).WarnsOfDeadRule ↔ items.getLast?.any consumesInput = false := by
  rw [Verdict.warnsOfDeadRule_iff_mem]
  rw [Verdict.isValid_iff, flaws_checkItems] at hvalid
  have hitem (warning : RuleWarning) (hwarning : ∀ i w, warning ≠ .inItem i w) :
      warning ∉ items.zipIdx.flatMap fun entry =>
        entry.1.checkItem.warnings.map (RuleWarning.inItem entry.2) := by
    simp only [List.mem_flatMap, List.mem_map, not_exists, not_and]
    exact fun _ _ w _ heq => hwarning _ w heq.symm
  unfold checkItems
  cases hlast : items.getLast? with
  | none => simp
  | some last =>
    cases hreads : last.consumesInput with
    | true => simp [hreads, hitem]
    | false => simp [hreads, hvalid]

/-- A valid rule is checked by its elements, whether they are at hand or not. -/
theorem exists_checkItems_of_isValid {declared : Datum} (h : declared.validate.isValid = true) :
    ∃ elements, declared.elements? = some elements ∧ declared.validate = checkItems elements ∧
      declared.materialised.validate = checkItems elements := by
  cases declared with
  | list items | tuple items | dict fields | generator mark items | rule items =>
    exact ⟨_, rfl, rfl, rfl⟩
  | _ => cases h

theorem isValid_materialised_of_isValid {declared : Datum}
    (h : declared.validate.isValid = true) : declared.materialised.validate.isValid = true := by
  obtain ⟨elements, -, hvalidate, hmaterialised⟩ := exists_checkItems_of_isValid h
  rwa [hmaterialised, ← hvalidate]

/-- A rule closes exactly if the last of its elements reads. -/
theorem closes_eq {rule : Rule} {elements : List Datum}
    (h : List.Forall₂ Item.HasForm rule.items elements) :
    rule.closes = elements.getLast?.any consumesInput := by
  have hreads : (rule.items.map fun part => !part.source.isEmpty) = elements.map consumesInput :=
    map_eq_map_of_forall₂ (fun _ _ hform => hform.consumesInput_eq) h
  have hlast := congrArg (fun reads => reads.getLast?.any fun reads => reads) hreads
  rw [List.getLast?_map, List.getLast?_map, Option.any_map, Option.any_map] at hlast
  exact hlast

/-- The check warns of a valid rule over texts exactly if the rule does not close. -/
theorem warnsOfDeadRule_validate_iff {declared : Datum} {rule : Rule}
    (hvalid : declared.validate.isValid = true) (hrule : declared.textRule? = some rule) :
    declared.validate.WarnsOfDeadRule ↔ rule.closes = false := by
  obtain ⟨elements, helements, hvalidate, -⟩ := exists_checkItems_of_isValid hvalid
  rw [hvalidate] at hvalid ⊢
  rw [warnsOfDeadRule_checkItems_iff hvalid,
    closes_eq ((textRule?_eq_some_iff helements).mp hrule)]

end Datum

namespace Rule

theorem ending?_eq_none_iff {rule : Rule} : rule.ending? = none ↔ rule.closes = false := by
  unfold ending?
  split
  case isTrue hcloses => simp [fragments, pairs_ne_nil_of_closes hcloses, hcloses]
  case isFalse hcloses => simp [hcloses]

end Rule

namespace Graph

/-! ### Rules that do not close -/

variable {rule : Rule} (halign : rule.Alignable)
include halign

/-- The graph of one rule has no terminal vertex exactly if the rule does not close. -/
theorem terminals_buildRules_singleton :
    (empty.buildRules [rule] : Graph Text).terminals = [] ↔ rule.closes = false := by
  have hstats := congrArg Stats.terminals (stats_buildRules (List.forall_mem_singleton.mpr halign))
  rw [← List.length_eq_zero_iff]
  refine Iff.trans (Eq.congr_left hstats) ?_
  rw [← Rule.ending?_eq_none_iff]
  cases hending : rule.ending? <;> simp [hending]

/-- The graph of one rule rejects the input of the rule exactly if the rule does not close. -/
theorem canParse_buildRules_singleton :
    (empty.buildRules [rule] : Graph Text).canParse rule.inputText = false ↔
      rule.closes = false := by
  rw [← Bool.not_eq_true, canParse_buildRules_iff, ← Bool.not_eq_true]
  simp [halign]

omit halign in
/-- A rule that does not close changes nothing about which texts are accepted. -/
theorem canParse_buildRules_append {rules : List Rule} (hcloses : rule.closes = false)
    (text : Text) :
    (empty.buildRules (rules ++ [rule]) : Graph Text).canParse text =
      (empty.buildRules rules).canParse text := by
  rw [Bool.eq_iff_iff, canParse_buildRules_iff, canParse_buildRules_iff]
  simp [or_and_right, exists_or, hcloses]

end Graph

/-! ### Exactness -/

/-- For a valid rule over texts, the warning that it is dead is exact. The rule is built and
admitted on any graph, and it is warned of exactly if it brings no terminal vertex to a fresh graph,
and exactly if the fresh graph then rejects the input of the rule. And on a graph that calls with
rules over texts have led to, a rule that is warned of changes nothing about which texts are
accepted. -/
theorem Datum.IsTextual.warnsOfDeadRule_iff {declared : Datum} (h : declared.IsTextual)
    (hvalid : declared.validate.isValid = true) :
    ∃ rule, declared.textRule? = some rule ∧
      (∀ g : Graph Text, (g.buildDeclared declared).error? = none ∧
        (g.addRule declared).error? = none ∧
        (g.addRule declared).graph = (g.buildDeclared declared).graph) ∧
      (declared.validate.WarnsOfDeadRule ↔
        ((Graph.empty : Graph Text).buildDeclared declared).graph.terminals = []) ∧
      (declared.validate.WarnsOfDeadRule ↔
        ((Graph.empty : Graph Text).buildDeclared declared).graph.canParse rule.inputText = false) ∧
      (declared.validate.WarnsOfDeadRule →
        ∀ calls : List Registration, (∀ call ∈ calls, call.IsTextual) →
          let g := ((Graph.empty : Graph Text).registerAll calls).1
          ∀ text, (g.buildDeclared declared).graph.canParse text = g.canParse text) := by
  have hadmissible := h.isAdmissible (isValid_materialised_of_isValid hvalid)
  obtain ⟨rule, hrule, halign⟩ := hadmissible.exists_alignable
  have hwarns := warnsOfDeadRule_validate_iff hvalid hrule
  have hgraph (g : Graph Text) : (g.buildDeclared declared).graph = g.buildRules [rule] := by
    rw [Graph.buildDeclared_of_textRule? hrule]
    rfl
  refine ⟨rule, hrule, fun g => ?_, ?_, ?_, ?_⟩
  · have hadded := (Graph.error?_addRule_eq_none_iff g declared).mpr hadmissible
    obtain ⟨-, hsome⟩ | ⟨hsame, herror⟩ := Graph.addRule_cases g declared
    · rw [hadded] at hsome
      cases hsome
    · exact ⟨herror.mp hadded, hadded, hsame⟩
  · rw [hwarns, hgraph, Graph.terminals_buildRules_singleton halign]
  · rw [hwarns, hgraph, Graph.canParse_buildRules_singleton halign]
  · intro hdead calls hcalls g text
    obtain ⟨rules, hthreads⟩ := Graph.exists_threads_registerAll (Graph.empty : Graph Text) hcalls
    have hg : g = Graph.empty.buildRules rules := hthreads.graph
    rw [hgraph, hg, ← Graph.buildRules_append]
    exact Graph.canParse_buildRules_append (hwarns.mp hdead) text

/-- A rule that ends on a finished text that reads nothing. -/
def deadRule : Datum :=
  .list [.text "a", .tuple [.text "b", .text "xy"], .item (.literal (.text ""))]

/-- The rule with one more code point, which closes it. -/
def closedRule : Datum := .list [.text "a", .tuple [.text "b", .text "xy"], .text "c"]

/-- Merged into the graph of the closed rule, the dead one runs along it and is not accepted. -/
theorem warnsOfDeadRule_iff_deadRule :
    let g := ((Graph.empty : Graph Text).registerAll [.add closedRule]).1
    deadRule.validate.WarnsOfDeadRule ∧
      ((Graph.empty : Graph Text).buildDeclared deadRule).graph.terminals = [] ∧
      (g.buildDeclared deadRule).graph.canParse "ab" = false ∧
      (g.buildDeclared deadRule).graph.canParse "abc" = true := by
  intro g
  have htextual : deadRule.IsTextual := by
    simp [deadRule, Datum.IsTextual, Datum.elements?, Item.texts?, Datum.text?]
  have hdead : deadRule.validate.WarnsOfDeadRule :=
    Verdict.warnsOfDeadRule_iff_mem.mpr (.inr (by decide))
  obtain ⟨rule, -, -, hterminals, -, hmerged⟩ := htextual.warnsOfDeadRule_iff (by decide)
  have hsame := hmerged hdead [.add closedRule]
    (by simp [closedRule, Registration.IsTextual, Datum.IsTextual, Datum.elements?])
  refine ⟨hdead, hterminals.mp hdead, (hsame "ab").trans ?_, (hsame "abc").trans ?_⟩
  · rw [Graph.canParse, Graph.parse, Graph.transduce, Graph.transduceFrom_eq_walk]
    decide
  · rw [Graph.canParse, Graph.parse, Graph.transduce, Graph.transduceFrom_eq_walk]
    decide

end RuleTransducer
