import RuleTransducer.Proofs.Creation
import RuleTransducer.Proofs.RulesFiles

/-! Documents of rules. As a rules file and as the rules of a request a document may be an array of
arrays of texts and of pairs of texts, of which none writes without reading. The schema of a
request takes nothing else. A rules file also takes an object for a rule: it counts as the run of
its names, each of which is a text. This is all that the two differ in. -/

namespace RuleTransducer

open Api (itemJson rulesJson insertions Gives)

/-- A list comes of contents with a property exactly if each element comes of one. -/
theorem exists_eq_map_iff {β γ : Type} {write : β → γ} {P : β → Prop} {l : List γ} :
    (∃ contents : List β, l = contents.map write ∧ ∀ b ∈ contents, P b) ↔
      ∀ c ∈ l, ∃ b, c = write b ∧ P b := by
  constructor
  · rintro ⟨contents, rfl, hall⟩ c hc
    obtain ⟨b, hb, rfl⟩ := List.mem_map.mp hc
    exact ⟨b, rfl, hall b hb⟩
  · intro h
    induction l with
    | nil => exact ⟨[], rfl, fun b hb => absurd hb List.not_mem_nil⟩
    | cons c l ih =>
      obtain ⟨⟨b, rfl, hb⟩, hl⟩ := List.forall_mem_cons.mp h
      obtain ⟨contents, rfl, hall⟩ := ih hl
      exact ⟨b :: contents, rfl, List.forall_mem_cons.mpr ⟨hb, hall⟩⟩

/-- Whether a document writes a rule of texts and pairs of texts, none of which writes without
reading. -/
def Json.IsRule (document : Json) : Prop :=
  ∃ items : List (Item Text), document = .array (items.map itemJson) ∧
    ∀ item ∈ items, ¬item.Inserts

def Json.IsObject (document : Json) : Prop := ∃ fields, document = .object fields

/-! ### Rules of a file -/

namespace RulesFile

/-- An item of a file is checked as the item that it writes. -/
theorem checkedItem?_item_eq_some_iff {document : Json} {part : Item Text} :
    (item document).checkedItem? = some part ↔ document = itemJson part := by
  cases document with
  | text s => cases part <;> simp [item, Datum.ofJson, Datum.checkedItem?, Datum.rawItem?, itemJson]
  | array parts =>
    have hchecked : (item (.array parts)).checkedItem? = Datum.pairItem? (Datum.ofElements parts) :=
      rfl
    rw [hchecked]
    rcases parts with _ | ⟨source, _ | ⟨destination, _ | ⟨third, rest⟩⟩⟩
    · cases part <;> simp [Datum.ofElements, Datum.pairItem?, itemJson]
    · cases part <;> simp [Datum.ofElements, Datum.pairItem?, itemJson]
    · cases source <;> cases destination <;> cases part <;>
        simp [Datum.ofElements, Datum.ofJson, Datum.pairItem?, Item.texts?, Datum.text?, itemJson]
    · cases part <;> simp [Datum.ofElements, Datum.pairItem?, itemJson]
  | _ =>
    cases part <;> simp [item, Datum.ofJson, Datum.checkedItem?, Datum.rawItem?, itemJson]

theorem flaws_checkItem_item_eq_nil_iff {document : Json} :
    (item document).checkItem.flaws = [] ↔ ∃ part, document = itemJson part ∧ ¬part.Inserts := by
  rw [Datum.flaws_checkItem_eq_nil_iff]
  simp only [checkedItem?_item_eq_some_iff]

/-- Nothing is wrong with a rule of a file exactly if it is written as a rule or is an object. -/
theorem flaws_validate_rule_eq_nil_iff (document : Json) :
    (rule document).validate.flaws = [] ↔ document.IsRule ∨ document.IsObject := by
  cases document with
  | array items =>
    have hvalidate : (rule (.array items)).validate = Datum.checkItems (items.map item) := rfl
    have hno : ¬(Json.array items).IsObject := by
      rintro ⟨fields, h⟩
      cases h
    rw [hvalidate, or_iff_left hno, ← Verdict.isValid_iff, Datum.isValid_checkItems_iff,
      List.forall_mem_map]
    simp only [flaws_checkItem_item_eq_nil_iff, ← exists_eq_map_iff, Json.IsRule, Json.array.injEq]
  | object fields =>
    refine iff_of_true ?_ (.inr ⟨fields, rfl⟩)
    have hvalidate : (rule (.object fields)).validate =
        Datum.checkItems ((Datum.ofFields fields).map fun field => .text field.1) := rfl
    rw [hvalidate, ← Verdict.isValid_iff, Datum.isValid_checkItems_iff, List.forall_mem_map]
    intro field _
    rw [Datum.flaws_checkItem_eq_nil_iff]
    exact ⟨.literal field.1, rfl, fun h => h.2 h.1⟩
  | _ =>
    refine iff_of_false (List.cons_ne_nil _ _) ?_
    rintro (⟨items, h, -⟩ | ⟨fields, h⟩) <;> cases h

end RulesFile

/-! ### Rules of a request -/

namespace Api

theorem insertions_eq_nil_iff {rules : List (List (Item Text))} :
    insertions rules = [] ↔ ∀ items ∈ rules, ∀ item ∈ items, ¬item.Inserts := by
  rw [insertions]
  refine flatMap_zipIdx_eq_nil_iff fun rule => flatMap_zipIdx_eq_nil_iff fun item => ?_
  by_cases h : item.1.Inserts
  · exact iff_of_false (fun hnone => List.cons_ne_nil _ _ ((if_pos h).symm.trans hnone))
      (not_not.mpr h)
  · exact iff_of_true (if_neg h) h

/-- A document is taken for the rules of a request exactly if it is an array of rules. -/
theorem exists_rulesJson_iff {document : Json} :
    (∃ rules, document = rulesJson rules ∧ insertions rules = []) ↔
      ∃ parts, document = .array parts ∧ ∀ part ∈ parts, part.IsRule := by
  simp only [insertions_eq_nil_iff, rulesJson]
  constructor
  · rintro ⟨rules, rfl, hrules⟩
    refine ⟨_, rfl, List.forall_mem_map.mpr fun items hitems => ⟨items, rfl, hrules items hitems⟩⟩
  · rintro ⟨parts, rfl, hparts⟩
    obtain ⟨rules, rfl, hrules⟩ := exists_eq_map_iff.mpr hparts
    exact ⟨rules, rfl, hrules⟩

/-- The body that asks for a transducer with a document for its rules. -/
def rulesBody (document : Json) : Json := .object [("rules", document)]

theorem hasBody_rulesBody_iff {document : Json} {request : CreateRequest} :
    CreateRequest.HasBody (rulesBody document) request ↔
      document = rulesJson request.rules ∧ request.name = none := by
  obtain ⟨rules, name⟩ := request
  have hrules : Json.lookup "rules" [("rules", document)] = some document := rfl
  have hname : Json.lookup "name" [("rules", document)] = none := rfl
  simp only [CreateRequest.HasBody, rulesBody, Json.object.injEq, exists_eq_left', hrules,
    Option.some.injEq]
  cases name <;> simp [HoldsOptional, hname]

/-- A request for a transducer is answered with 201 exactly if its rules are written as rules. -/
theorem gives_201_rulesBody_iff (fresh : ℕ → String) (r : Registry) (document : Json) :
    Gives (answer r "POST" "/api/v1/transducers" (.ok (rulesBody document)) fresh) 201 ↔
      ∃ parts, document = .array parts ∧ ∀ part ∈ parts, part.IsRule := by
  rw [(creation_answer fresh r (rulesBody document)).gives_201_iff, ← exists_rulesJson_iff]
  simp only [hasBody_rulesBody_iff]
  constructor
  · rintro ⟨request, ⟨hrules, -⟩, hnone⟩
    exact ⟨request.rules, hrules, hnone⟩
  · rintro ⟨rules, hrules, hnone⟩
    exact ⟨⟨rules, none⟩, ⟨hrules, rfl⟩, hnone⟩

end Api

/-! ### Files of rules -/

namespace Command

variable {content : FileContent} {document : Json} (h : RulesFile.Holds content document)
include h

/-- A file compiles exactly if it holds an array of which each element is written as a rule or is an
object. -/
theorem exists_builds_iff_isRule :
    (∃ g, Builds content g) ↔
      ∃ parts, document = .array parts ∧ ∀ part ∈ parts, part.IsRule ∨ part.IsObject := by
  cases document with
  | array parts =>
    rw [exists_builds_iff h]
    simp only [RulesFile.flaws_validate_rule_eq_nil_iff, Json.array.injEq, exists_eq_left']
  | _ =>
    refine iff_of_false ?_ nofun
    rintro ⟨g, rules, hrules, -⟩
    rw [h.ofContent_eq] at hrules
    cases hrules

/-- What a rules file and a request accept: both of them arrays of arrays of texts and of pairs of
texts, of which none writes without reading, and a rules file also arrays with objects for some of
these rules. So what a request accepts a file accepts, and a document is accepted in a file only
exactly if it has an object for a rule and nothing else is wrong with it. -/
theorem builds_or_gives_201 (fresh : ℕ → String) (r : Registry) :
    let creates :=
      Gives (Api.answer r "POST" "/api/v1/transducers" (.ok (Api.rulesBody document)) fresh) 201
    let builds := ∃ g, Builds content g
    (creates ↔ ∃ parts, document = .array parts ∧ ∀ part ∈ parts, part.IsRule) ∧
      (builds ↔ ∃ parts, document = .array parts ∧ ∀ part ∈ parts, part.IsRule ∨ part.IsObject) ∧
      (creates → builds) ∧
      (builds ∧ ¬creates ↔ ∃ parts, document = .array parts ∧
        (∀ part ∈ parts, part.IsRule ∨ part.IsObject) ∧ ∃ part ∈ parts, part.IsObject) := by
  intro creates builds
  have hcreates : creates ↔ _ := Api.gives_201_rulesBody_iff fresh r document
  have hbuilds : builds ↔ _ := exists_builds_iff_isRule h
  have hdisjoint {part : Json} (hobject : part.IsObject) : ¬part.IsRule := by
    obtain ⟨fields, rfl⟩ := hobject
    rintro ⟨items, hitems, -⟩
    cases hitems
  refine ⟨hcreates, hbuilds, ?_, ?_⟩
  · rw [hcreates, hbuilds]
    rintro ⟨parts, hparts, hrules⟩
    exact ⟨parts, hparts, fun part hpart => .inl (hrules part hpart)⟩
  · rw [hcreates, hbuilds]
    constructor
    · rintro ⟨⟨parts, rfl, hparts⟩, hno⟩
      refine ⟨parts, rfl, hparts, ?_⟩
      by_contra hnone
      push Not at hnone
      exact hno ⟨parts, rfl, fun part hpart =>
        (hparts part hpart).resolve_right (hnone part hpart)⟩
    · rintro ⟨parts, rfl, hparts, part, hpart, hobject⟩
      refine ⟨⟨parts, rfl, hparts⟩, ?_⟩
      rintro ⟨parts', heq, hrules⟩
      cases heq
      exact hdisjoint hobject (hrules part hpart)

omit h

/-- One rule, an object with the name `a`. -/
def objectRules : Json := .array [.object [("a", .int 1)]]

def objectFile : FileContent := .ok (Text.Utf8.encode "[\x7b\"a\":1\x7d]".toList)

theorem holds_objectFile : RulesFile.Holds objectFile objectRules := by
  refine RulesFile.holds_encode ?_
  simp only [String.reduceToList]
  rfl

theorem builds_or_gives_201_objectFile :
    RulesFile.Holds objectFile objectRules ∧ (∃ g, Builds objectFile g) ∧
      ¬Gives (Api.answer .empty "POST" "/api/v1/transducers" (.ok (Api.rulesBody objectRules)))
        201 := by
  obtain ⟨-, -, -, hdiffer⟩ := builds_or_gives_201 holds_objectFile Registry.idOf .empty
  have hobject : (Json.object [("a", .int 1)]).IsObject := ⟨_, rfl⟩
  obtain ⟨hbuilds, hno⟩ := hdiffer.mpr ⟨_, rfl, by
    intro part hpart
    rw [List.mem_singleton.mp hpart]
    exact .inr hobject, _, List.mem_cons_self, hobject⟩
  exact ⟨holds_objectFile, hbuilds, hno⟩

/-- A file with an object for its rule compiles to the graph that takes `a`, and a request for the
same rules is refused with 422. -/
theorem builds_objectFile :
    RulesFile.Holds objectFile objectRules ∧
      (∃ g, Builds objectFile g ∧ g.stats = ⟨2, 1, 1⟩ ∧ g.parse "a" = .success "a") ∧
      Gives (Api.answer .empty "POST" "/api/v1/transducers" (.ok (Api.rulesBody objectRules))) 422 ∧
      ¬Gives (Api.answer .empty "POST" "/api/v1/transducers" (.ok (Api.rulesBody objectRules)))
        201 := by
  have hno : ¬Gives (Api.answer .empty "POST" "/api/v1/transducers"
      (.ok (Api.rulesBody objectRules))) 201 := by
    rw [Api.gives_201_rulesBody_iff]
    rintro ⟨parts, hparts, hrules⟩
    cases hparts
    obtain ⟨items, hitems, -⟩ := hrules _ List.mem_cons_self
    cases hitems
  refine ⟨holds_objectFile, ⟨_, (builds_iff holds_objectFile _).mpr rfl, ?_, ?_⟩, ?_, hno⟩
  · decide
  · decide +kernel
  · rw [(Api.creation_answer Registry.idOf .empty (Api.rulesBody objectRules)).gives_422_iff]
    refine ⟨fun request hbody => ?_, by decide⟩
    have hrules := Json.array.inj (Api.hasBody_rulesBody_iff.mp hbody).1
    have hmem : Json.object [("a", .int 1)] ∈
        request.rules.map fun items => Json.array (items.map itemJson) :=
      hrules ▸ List.mem_cons_self
    obtain ⟨items, -, hitems⟩ := List.mem_map.mp hmem
    cases hitems

end Command

end RuleTransducer
