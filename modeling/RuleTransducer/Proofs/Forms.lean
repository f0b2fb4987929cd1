import RuleTransducer.Proofs.Admission

/-! The forms of a rule. A rule over texts can be declared finished, or as a list, a tuple or a
produced sequence of items, each of which is finished or raw, with the two texts of a transform in
a tuple or in a list. The check, the builder and the admission of a rule each tell these forms apart
in their own way. But item by item a form is read as the item it stands for, so none of them makes
a difference between the forms of one rule. -/

namespace RuleTransducer

/-! ### Forms of an item -/

namespace Item

/-- The values that stand for an item over texts. -/
inductive HasForm : Item Text → Datum → Prop
  | finished (part : Item Text) : HasForm part (.item (part.map .text))
  | text (s : Text) : HasForm (literal s) (.text s)
  | tuple (s d : Text) : HasForm (transform s d) (.tuple [.text s, .text d])
  | list (s d : Text) : HasForm (transform s d) (.list [.text s, .text d])

/-- The raw form of an item with a transform's pair in a list. -/
def listed : Item Datum → Datum
  | literal text => text
  | transform source destination => .list [source, destination]

theorem hasForm_raw (part : Item Text) : part.HasForm (part.map .text).raw := by
  cases part with
  | literal s => exact .text s
  | transform s d => exact .tuple s d

theorem hasForm_listed (part : Item Text) : part.HasForm (part.map .text).listed := by
  cases part with
  | literal s => exact .text s
  | transform s d => exact .list s d

/-- The values that stand for an item over texts are the ones that are built as the item. -/
theorem hasForm_iff {part : Item Text} {value : Datum} :
    part.HasForm value ↔ value.builtItem? = some part := by
  rw [Datum.builtItem?_eq_some_iff]
  constructor
  · intro h
    cases h <;> rfl
  · intro h
    unfold Datum.toItem at h
    split at h
    case h_1 =>
      cases h
      exact .finished part
    case h_5 => cases h
    all_goals
      cases part <;> cases h
      constructor

variable {part : Item Text} {value : Datum}

/-- A form is checked as the finished item is. -/
theorem HasForm.checkItem_eq (h : part.HasForm value) :
    (Datum.item (part.map .text)).checkItem = value.checkItem := by
  cases h <;> rfl

theorem HasForm.consumesInput_eq (h : part.HasForm value) :
    (!part.source.isEmpty) = value.consumesInput := by
  cases h with
  | finished => cases part <;> rfl
  | _ => rfl

end Item

namespace Datum

/-! ### Forms of a run of items -/

/-- The findings on a run of items depend on those on the items, and on whether the last one
reads. -/
theorem checkItems_congr {items others : List Datum}
    (hchecks : items.map checkItem = others.map checkItem)
    (hreads : items.map consumesInput = others.map consumesInput) :
    checkItems items = checkItems others := by
  have hfindings {β : Type} (f : ItemVerdict × ℕ → List β) :
      (items.zipIdx.flatMap fun entry => f (entry.1.checkItem, entry.2)) =
        others.zipIdx.flatMap fun entry => f (entry.1.checkItem, entry.2) := by
    have hzip := congrArg List.zipIdx hchecks
    rw [List.zipIdx_map, List.zipIdx_map] at hzip
    have hflat := congrArg (List.flatMap f) hzip
    rwa [List.flatMap_map, List.flatMap_map] at hflat
  have hlast := congrArg List.getLast? hreads
  rw [List.getLast?_map, List.getLast?_map] at hlast
  unfold checkItems
  rw [hfindings fun entry => entry.1.flaws.map (RuleFlaw.inItem entry.2),
    hfindings fun entry => entry.1.warnings.map (RuleWarning.inItem entry.2)]
  cases hitems : items.getLast? with
  | none =>
    rw [hitems, Option.map_none] at hlast
    rw [Option.map_eq_none_iff.mp hlast.symm]
  | some last =>
    rw [hitems, Option.map_some] at hlast
    obtain ⟨last', hothers, hsame⟩ := Option.map_eq_some_iff.mp hlast.symm
    simp only [hothers, hsame]

/-- The values that declare a rule over texts are those whose elements stand for its items. -/
theorem textRule?_eq_some_iff {declared : Datum} {elements : List Datum} {rule : Rule}
    (h : declared.elements? = some elements) :
    declared.textRule? = some rule ↔ List.Forall₂ Item.HasForm rule.items elements := by
  rw [textRule?_eq h, Option.map_eq_some_iff]
  simp only [mapM_eq_some_iff_forall₂, ← Item.hasForm_iff]
  constructor
  · rintro ⟨items, hitems, rfl⟩
    exact hitems
  · intro hitems
    exact ⟨rule.items, hitems, rfl⟩

end Datum

/-! ### Forms of a rule -/

namespace Rule

/-- The values that declare a rule over texts item by item. -/
inductive HasForm (rule : Rule) : Datum → Prop
  | finished : HasForm rule rule.toDatum
  | list {elements : List Datum} (h : List.Forall₂ Item.HasForm rule.items elements) :
    HasForm rule (.list elements)
  | tuple {elements : List Datum} (h : List.Forall₂ Item.HasForm rule.items elements) :
    HasForm rule (.tuple elements)
  | generator (mark : ℕ) {elements : List Datum}
    (h : List.Forall₂ Item.HasForm rule.items elements) : HasForm rule (.generator mark elements)

/-- The raw form of a rule with the pairs in lists. -/
def listed (rule : Rule) : List Datum := rule.items.map fun item => (item.map .text).listed

theorem forms_map {f : Item Text → Datum} (hf : ∀ item, Item.HasForm item (f item))
    (rule : Rule) : List.Forall₂ Item.HasForm rule.items (rule.items.map f) := by
  rw [List.forall₂_map_right_iff, List.forall₂_same]
  exact fun item _ => hf item

theorem forms_finished (rule : Rule) :
    List.Forall₂ Item.HasForm rule.items ((rule.items.map (Item.map .text)).map .item) := by
  rw [List.map_map]
  exact rule.forms_map Item.HasForm.finished

theorem forms_raw (rule : Rule) : List.Forall₂ Item.HasForm rule.items rule.raw :=
  rule.forms_map Item.hasForm_raw

theorem forms_listed (rule : Rule) : List.Forall₂ Item.HasForm rule.items rule.listed :=
  rule.forms_map Item.hasForm_listed

variable {rule : Rule} {declared : Datum}

/-- A form of a rule has elements that stand for the items, and they are what is checked, whether
they are at hand or not. -/
theorem HasForm.exists_elements (h : rule.HasForm declared) :
    ∃ elements, declared.elements? = some elements ∧
      List.Forall₂ Item.HasForm rule.items elements ∧
      declared.validate = Datum.checkItems elements ∧
      declared.materialised.validate = Datum.checkItems elements := by
  cases h with
  | finished => exact ⟨_, rfl, rule.forms_finished, rfl, rfl⟩
  | list h | tuple h | generator mark h => exact ⟨_, rfl, h, rfl, rfl⟩

theorem HasForm.textRule? (h : rule.HasForm declared) : declared.textRule? = some rule := by
  obtain ⟨elements, helements, hforms, -⟩ := h.exists_elements
  exact (Datum.textRule?_eq_some_iff helements).mpr hforms

/-- Elements that stand for the items of a rule are checked as the finished items are. -/
theorem checkItems_of_forms {elements : List Datum}
    (h : List.Forall₂ Item.HasForm rule.items elements) :
    Datum.checkItems elements = rule.toDatum.validate := by
  have hfinished := rule.forms_finished
  have hchecks {elements : List Datum} (h : List.Forall₂ Item.HasForm rule.items elements) :
      (rule.items.map fun part => (Datum.item (part.map .text)).checkItem) =
        elements.map Datum.checkItem :=
    map_eq_map_of_forall₂ (fun _ _ hform => hform.checkItem_eq) h
  have hreads {elements : List Datum} (h : List.Forall₂ Item.HasForm rule.items elements) :
      (rule.items.map fun part => !part.source.isEmpty) = elements.map Datum.consumesInput :=
    map_eq_map_of_forall₂ (fun _ _ hform => hform.consumesInput_eq) h
  exact Datum.checkItems_congr ((hchecks h).symm.trans (hchecks hfinished))
    ((hreads h).symm.trans (hreads hfinished))

/-- All forms of a rule have the same findings. -/
theorem HasForm.validate_eq (h : rule.HasForm declared) :
    declared.validate = rule.toDatum.validate := by
  obtain ⟨elements, -, hforms, hvalidate, -⟩ := h.exists_elements
  rw [hvalidate, checkItems_of_forms hforms]

theorem HasForm.validate_materialised (h : rule.HasForm declared) :
    declared.materialised.validate = rule.toDatum.validate := by
  obtain ⟨elements, -, hforms, -, hvalidate⟩ := h.exists_elements
  rw [hvalidate, checkItems_of_forms hforms]

/-- The items that a form of a rule declares are those of the rule. -/
theorem HasForm.toItems (h : rule.HasForm declared) :
    declared.toItems = .ok (rule.items.map (Item.map .text)) := by
  have hrule := h.textRule?
  unfold Datum.textRule? at hrule
  split at hrule
  case h_1 items hitems =>
    obtain ⟨texts, htexts, rfl⟩ := Option.map_eq_some_iff.mp hrule
    simp only [mapM_eq_some_iff_forall₂, Datum.texts?_eq_some_iff] at htexts
    have hsame : texts.map (Item.map Datum.text) = items.map id :=
      map_eq_map_of_forall₂ (fun _ _ hpart => hpart.symm) htexts
    rw [hitems, hsame, List.map_id]
  case h_2 => cases hrule

section Admission
variable {α : Type} [BEq α] [Fragment α]

/-- A form of a rule ends in admission as the finished rule does. -/
theorem HasForm.addRule_eq (h : rule.HasForm declared) (g : Graph α) :
    (g.addRule declared).error? = (g.addRule rule.toDatum).error? ∧
      (g.addRule declared).graph = (g.addRule rule.toDatum).graph := by
  have hfinished : rule.HasForm rule.toDatum := .finished
  simp only [Graph.addRule, Graph.buildDeclared_materialised, h.validate_materialised,
    hfinished.validate_materialised, Graph.buildDeclared_of_textRule? h.textRule? g,
    Graph.buildDeclared_of_textRule? hfinished.textRule? g]
  split
  · split <;> exact ⟨rfl, rfl⟩
  · exact ⟨rfl, rfl⟩

theorem isTextual_toDatum (rule : Rule) : rule.toDatum.IsTextual := by
  intro elements helements part hpart
  cases helements
  simp only [List.mem_map, Datum.item.injEq] at hpart
  obtain ⟨_, ⟨texts, -, rfl⟩, rfl⟩ := hpart
  rw [Datum.texts?_eq_some_iff.mpr rfl]
  rfl

/-- A rule over texts is built, or it is kept out for its flaws. -/
theorem isGuarded_addRule_toDatum (rule : Rule) (g : Graph α) :
    (g.addRule rule.toDatum).IsGuarded g := by
  by_cases hvalid : rule.toDatum.materialised.validate.isValid = true
  · left
    exact (Graph.error?_addRule_eq_none_iff g _).mpr (rule.isTextual_toDatum.isAdmissible hvalid)
  · right
    simp [Graph.addRule, hvalid]

/-- The raw form of a rule, the raw form with pairs in lists, and produced sequences of either are
forms of the rule. Whatever the form, the rule is read back from it, its findings are those on the
finished rule, and its admission to any graph ends as that of the finished rule: built into the same
graph, or kept out for the same flaws. -/
theorem forms_agree (rule : Rule) (g : Graph α) :
    (rule.HasForm (.list rule.raw) ∧ rule.HasForm (.list rule.listed) ∧
      ∀ mark, rule.HasForm (.generator mark rule.raw) ∧
        rule.HasForm (.generator mark rule.listed)) ∧
    ∀ declared, rule.HasForm declared →
      declared.toItems.map Datum.rule = .ok rule.toDatum ∧
        declared.validate = rule.toDatum.validate ∧
        (g.addRule declared).error? = (g.addRule rule.toDatum).error? ∧
        (g.addRule declared).graph = (g.addRule rule.toDatum).graph ∧
        (g.addRule declared).IsGuarded g := by
  refine ⟨⟨.list rule.forms_raw, .list rule.forms_listed, fun mark =>
    ⟨.generator mark rule.forms_raw, .generator mark rule.forms_listed⟩⟩, fun declared h => ?_⟩
  obtain ⟨herror, hgraph⟩ := h.addRule_eq g
  have hguarded := rule.isGuarded_addRule_toDatum g
  refine ⟨by rw [h.toItems]; rfl, h.validate_eq, herror, hgraph, ?_⟩
  rwa [Admission.IsGuarded, herror, hgraph]

end Admission

/-- A rule that copies, replaces and ends on a text that reads nothing. -/
def copyThenReplace : Rule := ⟨[.literal "a", .transform "b" "xy", .literal ""]⟩

/-- The rule as a produced sequence of a text, a pair in a list and a finished literal. -/
theorem forms_agree_copyThenReplace :
    let declared := Datum.generator 0
      [.text "a", .list [.text "b", .text "xy"], .item (.literal (.text ""))]
    copyThenReplace.HasForm declared ∧
      declared.validate.warnings = [.inItem 2 .emptyLiteral, .deadEnd] ∧
      ((Graph.empty : Graph Text).addRule declared).graph =
        (Graph.empty.addRule copyThenReplace.toDatum).graph := by
  intro declared
  have hform : copyThenReplace.HasForm declared :=
    .generator 0 (.cons (.text "a") (.cons (.list "b" "xy") (.cons (.finished (.literal "")) .nil)))
  obtain ⟨-, hvalidate, -, hgraph, -⟩ :=
    (forms_agree copyThenReplace (Graph.empty : Graph Text)).2 declared hform
  refine ⟨hform, ?_, hgraph⟩
  rw [hvalidate]
  decide

end Rule

end RuleTransducer
