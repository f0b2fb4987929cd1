import RuleTransducer.Proofs.Admission
import RuleTransducer.Session

/-! Raw forms. A rule over texts is in raw form what it was: its items stand for the same items,
so it declares the same rule and is admitted just as before. Compiling rules over texts and
compiling their raw forms therefore give the same graph. -/

namespace RuleTransducer

namespace Datum

/-! ### Admissible rules -/

theorem exists_elements?_of_textRule? {declared : Datum} {rule : Rule}
    (h : declared.textRule? = some rule) : ∃ elements, declared.elements? = some elements := by
  cases helements : declared.elements? with
  | none => simp [textRule?, toItems, Datum.elements, helements, bind, Except.bind] at h
  | some elements => exact ⟨elements, rfl⟩

/-- Items without flaws make a valid rule, if they do not stand in a text. -/
theorem isValid_materialised {declared : Datum} (hdeclared : ∀ s, declared ≠ text s)
    {elements : List Datum} (helements : declared.elements? = some elements)
    (h : ∀ value ∈ elements, value.checkItem.flaws = []) :
    declared.materialised.validate.isValid = true := by
  cases declared with
  | text s => exact absurd rfl (hdeclared s)
  | list items | tuple items | dict fields | bytes octets | generator mark items | rule items =>
    cases helements
    exact isValid_checkItems_iff.mpr h
  | _ => cases helements

/-- A value over texts that is no text is admissible exactly if it declares a rule that can be
aligned. -/
theorem IsTextual.isAdmissible_iff {declared : Datum} (h : declared.IsTextual)
    (hdeclared : ∀ s, declared ≠ text s) :
    declared.IsAdmissible ↔ ∃ rule, declared.textRule? = some rule ∧ rule.Alignable := by
  constructor
  · exact IsAdmissible.exists_alignable
  · rintro ⟨rule, hrule, halign⟩
    obtain ⟨elements, helements⟩ := exists_elements?_of_textRule? hrule
    have hbuilt := (exists_textRule?_iff helements (P := fun part => ¬part.Inserts)).mp
      ⟨rule, hrule, halign⟩
    have hpair (value : Datum) (hvalue : value ∈ elements) : value.isPairLiteral = false :=
      isPairLiteral_eq_false fun part hpart => h elements helements part (hpart ▸ hvalue)
    constructor
    · apply isValid_materialised hdeclared helements
      intro value hvalue
      exact (flaws_checkItem_eq_nil_iff_built (hpair value hvalue)).mpr (hbuilt value hvalue)
    · rintro ⟨-, elements', helements', value, hvalue, hslips⟩
      obtain rfl : elements = elements' := Option.some.inj (helements.symm.trans helements')
      rw [hpair value hvalue] at hslips
      cases hslips

/-! ### One rule in raw form -/

/-- Items over texts are built in raw form as they are built finished. -/
theorem builtItem?_raw {part : Item Datum} (h : part.texts?.isSome) :
    part.raw.builtItem? = (item part).builtItem? := by
  obtain ⟨texts, htexts⟩ := Option.isSome_iff_exists.mp h
  obtain rfl := texts?_eq_some_iff.mp htexts
  cases texts <;> rfl

theorem raw_ne_item {part inner : Item Datum} (h : part.texts?.isSome) : part.raw ≠ item inner := by
  obtain ⟨texts, htexts⟩ := Option.isSome_iff_exists.mp h
  obtain rfl := texts?_eq_some_iff.mp htexts
  cases texts <;> exact fun heq => Datum.noConfusion heq

theorem mapM_builtItem?_raw {items : List (Item Datum)}
    (h : ∀ part ∈ items, part.texts?.isSome) :
    (items.map Item.raw).mapM builtItem? = (items.map item).mapM builtItem? := by
  induction items with
  | nil => rfl
  | cons part items ih =>
    obtain ⟨hpart, hitems⟩ := List.forall_mem_cons.mp h
    rw [List.map_cons, List.map_cons, List.mapM_cons, List.mapM_cons, builtItem?_raw hpart,
      ih hitems]

/-- The raw form of a value that is no text is a list, of elements that are built as those of
the value. -/
theorem exists_rawElements {declared raw : Datum} (h : declared.IsTextual)
    (hdeclared : ∀ s, declared ≠ text s) (hraw : declared.rawRule = .ok raw) :
    ∃ elements rawElements, declared.elements? = some elements ∧ raw = list rawElements ∧
      (list rawElements).IsTextual ∧
      rawElements.mapM builtItem? = elements.mapM builtItem? := by
  unfold rawRule at hraw
  split at hraw
  case h_1 items =>
    cases hraw
    have htext (part : Item Datum) (hpart : part ∈ items) : part.texts?.isSome :=
      h _ rfl part (List.mem_map_of_mem hpart)
    refine ⟨items.map item, items.map Item.raw, rfl, rfl, ?_, ?_⟩
    · intro elements helements inner hinner
      cases helements
      obtain ⟨part, hpart, heq⟩ := List.mem_map.mp hinner
      exact absurd heq (raw_ne_item (htext part hpart))
    · exact mapM_builtItem?_raw htext
  case h_2 s => exact absurd rfl (hdeclared s)
  case h_3 =>
    unfold Datum.elements at hraw
    cases helements : declared.elements? with
    | none => simp [helements, Except.map] at hraw
    | some elements =>
      simp only [helements, Except.map, Except.ok.injEq] at hraw
      refine ⟨elements, elements, rfl, hraw.symm, ?_, rfl⟩
      intro elements' helements' part hpart
      cases helements'
      exact h elements helements part hpart

/-- A rule over texts declares in raw form what it declares, and is admissible just as it is. -/
theorem rawRule_agrees {declared raw : Datum} (h : declared.IsTextual)
    (hraw : declared.rawRule = .ok raw) :
    raw.textRule? = declared.textRule? ∧ (raw.IsAdmissible ↔ declared.IsAdmissible) := by
  by_cases hdeclared : ∃ s, declared = text s
  · obtain ⟨s, rfl⟩ := hdeclared
    cases hraw
    exact ⟨rfl, Iff.rfl⟩
  · have hno (s : Text) : declared ≠ text s := fun heq => hdeclared ⟨s, heq⟩
    obtain ⟨elements, rawElements, helements, rfl, htext, hbuilt⟩ := exists_rawElements h hno hraw
    have hrule : (list rawElements).textRule? = declared.textRule? := by
      have hlist : (list rawElements).elements? = some rawElements := rfl
      rw [textRule?_eq helements, textRule?_eq hlist, hbuilt]
    refine ⟨hrule, ?_⟩
    rw [htext.isAdmissible_iff nofun, h.isAdmissible_iff hno, hrule]

/-- An admissible rule is one over texts. -/
theorem IsAdmissible.isTextual {declared : Datum} (h : declared.IsAdmissible) :
    declared.IsTextual := by
  intro elements helements part hpart
  obtain ⟨rule, hrule, -⟩ := h.exists_alignable
  obtain ⟨texts, hbuilt, -⟩ := (exists_textRule?_iff helements (P := fun _ => True)).mp
    ⟨rule, hrule, fun _ _ => trivial⟩ _ hpart
  have hitem : (item part).toItem = .ok (texts.map text) := builtItem?_eq_some_iff.mp hbuilt
  have hpart : part = texts.map text := Except.ok.inj hitem
  rw [texts?_eq_some_iff.mpr hpart]
  rfl

end Datum

/-! ### Compiling raw forms -/

/-- Rules over texts compile to a graph exactly if their raw forms do. -/
theorem compile?_rawRules {elements raw : List Datum} (hraw : elements.mapM Datum.rawRule = .ok raw)
    (h : ∀ declared ∈ elements, declared.IsTextual) (g : Graph Text) :
    compile? raw = .ok g ↔ compile? elements = .ok g := by
  have hagree : raw.mapM Datum.textRule? = elements.mapM Datum.textRule? ∧
      ((∀ rule ∈ raw, rule.IsAdmissible) ↔ ∀ rule ∈ elements, rule.IsAdmissible) := by
    rw [mapM_eq_ok_iff_forall₂] at hraw
    induction hraw with
    | nil => exact ⟨rfl, by simp⟩
    | cons hfirst hrest ih =>
      obtain ⟨htext, hlater⟩ := List.forall_mem_cons.mp h
      obtain ⟨hrule, hadmissible⟩ := Datum.rawRule_agrees htext hfirst
      obtain ⟨hrules, hall⟩ := ih hlater
      constructor
      · rw [List.mapM_cons, List.mapM_cons, hrule, hrules]
      · rw [List.forall_mem_cons, List.forall_mem_cons, hadmissible, hall]
  rw [Graph.compile?_eq_ok_iff, Graph.compile?_eq_ok_iff, hagree.1, hagree.2]

/-- What rules compile to, if they compile, is what their raw forms compile to; and rules over
texts compile if their raw forms do. -/
theorem compile_of_rawRules {rules : Datum} {raw : List Datum} {g : Graph Text}
    (hraw : rules.rawRules = .ok raw) (hg : compile? raw = .ok g) :
    ((compile rules : Admission Text).error? = none → (compile rules).graph = g) ∧
      ((∀ elements, rules.elements? = some elements →
          ∀ declared ∈ elements, declared.IsTextual) →
        (compile rules : Admission Text).error? = none) := by
  cases helements : rules.elements? with
  | none => simp [Datum.rawRules, Datum.elements, helements, bind, Except.bind] at hraw
  | some elements =>
    have hcompile : (compile rules : Admission Text) = compileAll elements := by
      simp only [compile, Datum.elements, helements]
    have hmapM : elements.mapM Datum.rawRule = .ok raw := by
      simpa only [Datum.rawRules, Datum.elements, helements, bind, Except.bind] using hraw
    rw [hcompile]
    constructor
    · intro hnone
      have hfinal : compile? elements = .ok (compileAll elements).graph := by
        simp only [compile?, hnone]
      have hadmissible := Graph.exists_compile?_iff.mp ⟨_, hfinal⟩
      rw [← compile?_rawRules hmapM fun rule hrule => (hadmissible rule hrule).isTextual] at hfinal
      exact Except.ok.inj (hfinal.symm.trans hg)
    · intro htext
      have hfinal := (compile?_rawRules hmapM (htext elements rfl) g).mp hg
      have hadmissible := Graph.exists_compile?_iff.mp ⟨g, hfinal⟩
      exact (Graph.error?_addRules_eq_none_iff _ elements).mpr hadmissible

end RuleTransducer
